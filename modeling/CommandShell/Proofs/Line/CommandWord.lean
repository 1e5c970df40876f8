import CommandShell.Engine.Dispatch
/-!
# The first word of a line

A line is a word, blanks behind it and the rest.  `splitCommand` finds the word and the rest, and
finds them again, trimmed, where the line was trimmed in between.

    Cut line word gap rest          line = word gap rest, the word without blanks, the gap of them
    splitCommand (word gap rest) = (word, rest from its first character that is not blank)
                                                                         (Cut.splitCommand)
    what it finds is a word                                   (isWord_of_splitCommand)
-/

namespace CommandShell

open Text

/-- A line as its first word, the blanks behind that and the rest. -/
structure Cut (line word gap rest : List Char) : Prop where
  line : line = word ++ (gap ++ rest)
  wordly : word ≠ [] ∧ ∀ c ∈ word, isBlank c = false
  blank : ∀ c ∈ gap, isBlank c = true
  apart : gap = [] → rest = []

namespace Cut

variable {line word gap rest : List Char}

theorem trimStart_word (h : Cut line word gap rest) : trimStart word = word :=
  (trimStart_eq_self_iff word).2 fun c hc => h.wordly.2 c (List.mem_of_head? hc)

theorem trimEnd_word (h : Cut line word gap rest) : trimEnd word = word :=
  (trimEnd_eq_self_iff word).2 fun c hc => h.wordly.2 c (List.mem_of_getLast? hc)

theorem trimStart_line (h : Cut line word gap rest) : trimStart line = line := by
  rw [h.line]
  exact trimStart_append_of_not_blank h.trimStart_word h.wordly.1 _

theorem splitCommand (h : Cut line word gap rest) :
    splitCommand (String.ofList line) =
      some (String.ofList word, String.ofList (trimStart rest)) := by
  have hne : trimStart line ≠ [] := by
    rw [h.trimStart_line, h.line]
    exact fun h' => h.wordly.1 (List.append_eq_nil_iff.1 h').1
  unfold CommandShell.splitCommand
  rw [String.toList_ofList]
  split
  · next hnil => exact absurd hnil hne
  · rw [h.trimStart_line, h.line]
    cases gap with
    | nil =>
      have hnone : cutAtBlank word = none := (cutAtBlank_eq_none_iff word).2 h.wordly.2
      rw [h.apart rfl, List.append_nil, List.append_nil, hnone]
      rfl
    | cons c gap =>
      have hgap : ∀ d ∈ gap, isBlank d = true := fun d hd => h.blank d (List.mem_cons_of_mem _ hd)
      rw [List.cons_append, cutAtBlank_append h.wordly.2 (h.blank c List.mem_cons_self)]
      dsimp only
      rw [trimStart_append_of_blank hgap]

/-- Trimming a line at its end trims the rest of it. -/
theorem trimEnd (h : Cut line word gap rest) :
    ∃ gap', Cut (word ++ trimEnd (gap ++ rest)) word gap' (Text.trimEnd rest) := by
  by_cases hrest : Text.trimEnd rest = []
  · have hall : ∀ c ∈ gap ++ rest, isBlank c = true := by
      intro c hc
      rcases List.mem_append.1 hc with hc | hc
      · exact h.blank c hc
      · exact (trimEnd_eq_nil_iff rest).1 hrest c hc
    refine ⟨[], ?_, h.wordly, by simp, fun _ => hrest⟩
    rw [(trimEnd_eq_nil_iff _).2 hall, hrest]
    rfl
  · refine ⟨gap, ?_, h.wordly, h.blank, fun hgap => absurd ?_ hrest⟩
    · rw [trimEnd_append_of_ne_nil gap hrest]
    · rw [h.apart hgap, trimEnd_nil]

end Cut

/-- A line that begins with no blank is cut where `splitCommand` cuts it. -/
theorem exists_cut {line typed rest : String} (hstart : trimStart line.toList = line.toList)
    (h : splitCommand line = some (typed, rest)) :
    ∃ gap, Cut line.toList typed.toList gap rest.toList := by
  unfold splitCommand at h
  rw [hstart] at h
  split at h
  · cases h
  · next text hne =>
    have hbegin := (trimStart_eq_self_iff line.toList).1 hstart
    split at h
    · next name behind hcut =>
      obtain ⟨c, hc, hline, hword⟩ := cutAtBlank_eq_some hcut
      cases h
      rw [String.toList_ofList, String.toList_ofList]
      refine ⟨c :: behind.takeWhile isBlank, ⟨?_, ⟨?_, hword⟩, ?_, ?_⟩⟩
      · rw [hline, trimStart, List.cons_append, List.takeWhile_append_dropWhile]
      · rintro rfl
        rw [hline] at hbegin
        rw [hbegin c rfl] at hc
        cases hc
      · intro d hd
        rcases List.mem_cons.1 hd with rfl | hd
        · exact hc
        · exact List.all_eq_true.1 List.all_takeWhile d hd
      · intro hnil
        cases hnil
    · next hcut =>
      cases h
      rw [String.toList_ofList]
      refine ⟨[], ⟨(by simp), ⟨?_, (cutAtBlank_eq_none_iff _).1 hcut⟩, by simp, fun _ => rfl⟩⟩
      exact hne

/-! ## Words that can begin a line -/

/-- A text that can be the first word of a line: not empty and without blanks. -/
def IsWord (text : String) : Prop := text ≠ "" ∧ ∀ c ∈ text.toList, isBlank c = false

/-- Behind a word and a blank stands the rest of the line. -/
theorem splitCommand_word {word rest : String} (hword : IsWord word)
    (hrest : ∀ c, rest.toList.head? = some c → isBlank c = false) :
    splitCommand (word ++ " " ++ rest) = some (word, rest) := by
  have hcut : Cut (word ++ " " ++ rest).toList word.toList [' '] rest.toList := by
    refine ⟨?_, ⟨fun hnil => hword.1 (String.toList_eq_nil_iff.1 hnil), hword.2⟩, ?_, by simp⟩
    · rw [String.toList_append, String.toList_append, List.append_assoc]
      rfl
    · intro c hc
      rw [List.mem_singleton.1 hc]
      rfl
  have hsplit := hcut.splitCommand
  rwa [(trimStart_eq_self_iff rest.toList).2 hrest, String.ofList_toList, String.ofList_toList,
    String.ofList_toList] at hsplit

theorem isWord_of_splitCommand {line typed rest : String}
    (h : splitCommand line = some (typed, rest)) : IsWord typed := by
  have hstart : trimStart (trimStart line.toList) = trimStart line.toList := by
    refine (trimStart_eq_self_iff _).2 fun c hc => ?_
    have hhead := List.head?_dropWhile_not isBlank line.toList
    rw [trimStart] at hc
    rw [hc] at hhead
    exact hhead
  have hline : splitCommand (String.ofList (trimStart line.toList)) = some (typed, rest) := by
    rw [← h, splitCommand, splitCommand, String.toList_ofList, hstart]
  obtain ⟨gap, hcut⟩ := exists_cut (by rw [String.toList_ofList, hstart]) hline
  refine ⟨fun hempty => hcut.wordly.1 ?_, hcut.wordly.2⟩
  rw [hempty]
  rfl

end CommandShell
