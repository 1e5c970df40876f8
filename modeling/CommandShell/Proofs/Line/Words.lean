import CommandShell.Line.Word
/-!
# Cutting a line between its words

A blank outside quotes ends whatever word stands before it, and behind it the scanner starts
afresh.  So a line may be cut at such a blank, and its words are the words of the two parts; only
the places of the words behind the blank are counted on.

    tokens of s ++ blank :: t = those of s, then those of t, if the blank is bare
                                                                   (tokensFrom_append)
    words (s ++ blank :: t) = words s ++ words t, quoted or not    (rawWords_append, words_append)
    a line with a word is what stands before its last word, that word, and blanks
                                                                   (tokenize_last)
-/

namespace CommandShell.Line

open CommandShell.Text

/-- The words of a line as they stand in it, with their quoting. -/
def rawWords (line : List Char) : List (List Char) := (tokenize line).map (·.text)

/-! ## One step of the scanner -/

theorem advance_of_blank {c : Char} (h : isBlank c = true) : Mode.start.advance c = .start := by
  have h1 : c ≠ '\\' := by rintro rfl; cases h
  have h2 : c ≠ '\'' := by rintro rfl; cases h
  have h3 : c ≠ '"' := by rintro rfl; cases h
  simp [Mode.start, Mode.advance, h1, (step_none_eq_none_iff c).2 ⟨h2, h3⟩]

/-- The token of the open word at the end of a text, if there is one. -/
theorem tokensFrom_nil (mode : Mode) (pos : Nat) (w : Option OpenWord) :
    tokensFrom mode pos w [] = (w.map (·.close pos)).toList := by
  cases w <;> rfl

theorem tokensFrom_blank {c : Char} (hc : isBlank c = true) (pos : Nat) (w : Option OpenWord)
    (s : List Char) :
    tokensFrom .start pos w (c :: s) =
      tokensFrom .start pos w [] ++ tokensFrom .start (pos + c.utf8Size) none s := by
  have hbare : (Mode.start.bare && isBlank c) = true := by rw [hc]; rfl
  cases w <;> simp [tokensFrom, hbare]

theorem tokensFrom_inside {mode : Mode} {c : Char} (hc : (mode.bare && isBlank c) = false)
    (pos : Nat) (w : Option OpenWord) (s : List Char) :
    tokensFrom mode pos w (c :: s) =
      tokensFrom (mode.advance c) (pos + c.utf8Size) (some (OpenWord.extend pos c w)) s := by
  cases w <;> rw [tokensFrom, hc, if_neg Bool.false_ne_true]

/-- A character is a bare blank or goes into the open word. -/
theorem blank_or_inside (mode : Mode) (c : Char) :
    (mode = .start ∧ isBlank c = true) ∨ (mode.bare && isBlank c) = false := by
  cases h : mode.bare && isBlank c with
  | false => exact Or.inr rfl
  | true =>
    rw [Bool.and_eq_true] at h
    exact Or.inl ⟨Mode.start_of_bare h.1, h.2⟩

/-! ## The part behind a blank -/

theorem tokensFrom_append {mode : Mode} {pos : Nat} {w : Option OpenWord} {s : List Char}
    {c : Char} (hs : mode.advanceAll s = .start) (hc : isBlank c = true) (t : List Char) :
    tokensFrom mode pos w (s ++ c :: t) =
      tokensFrom mode pos w s ++ tokensFrom .start (pos + byteLength (s ++ [c])) none t := by
  induction s generalizing mode pos w with
  | nil =>
    obtain rfl : mode = .start := hs
    exact tokensFrom_blank hc pos w t
  | cons d s ih =>
    have hpos : pos + byteLength (d :: s ++ [c]) = pos + d.utf8Size + byteLength (s ++ [c]) := by
      rw [List.cons_append, byteLength, Nat.add_assoc]
    rw [List.cons_append, hpos]
    rcases blank_or_inside mode d with ⟨rfl, hd⟩ | hd
    · rw [Mode.advanceAll_cons, advance_of_blank hd] at hs
      rw [tokensFrom_blank hd, tokensFrom_blank hd, ih hs, List.append_assoc]
    · rw [tokensFrom_inside hd, tokensFrom_inside hd, ih hs]

/-- The text of a token that ends where the text ends does not depend on its place. -/
theorem texts_nil {mode : Mode} {pos pos' : Nat} {w w' : Option OpenWord}
    (hw : w.map (·.chars) = w'.map (·.chars)) :
    (tokensFrom mode pos w []).map (·.text) = (tokensFrom mode pos' w' []).map (·.text) := by
  cases w with
  | none =>
    cases w' with
    | none => rfl
    | some _ => cases hw
  | some v =>
    cases w' with
    | none => cases hw
    | some v' =>
      have hchars : v.chars = v'.chars := Option.some.inj hw
      simp [tokensFrom, OpenWord.close, hchars]

/-- The texts of tokens do not depend on where the scanner thinks it is. -/
theorem texts_tokensFrom {mode : Mode} {pos pos' : Nat} {w w' : Option OpenWord}
    (hw : w.map (·.chars) = w'.map (·.chars)) (s : List Char) :
    (tokensFrom mode pos w s).map (·.text) = (tokensFrom mode pos' w' s).map (·.text) := by
  induction s generalizing mode pos pos' w w' with
  | nil => exact texts_nil hw
  | cons c s ih =>
    rcases blank_or_inside mode c with ⟨rfl, hc⟩ | hc
    · rw [tokensFrom_blank hc, tokensFrom_blank hc, List.map_append, List.map_append,
        texts_nil hw, ih rfl]
    · rw [tokensFrom_inside hc, tokensFrom_inside hc]
      refine ih ?_
      cases w <;> cases w' <;> simp_all [OpenWord.extend]

theorem words_eq_map (s : List Char) : words s = (rawWords s).map unquote := by
  rw [rawWords, List.map_map]
  rfl

theorem rawWords_append {s : List Char} {c : Char} (hs : Mode.start.advanceAll s = .start)
    (hc : isBlank c = true) (t : List Char) :
    rawWords (s ++ c :: t) = rawWords s ++ rawWords t := by
  rw [rawWords, tokenize, tokensFrom_append hs hc, List.map_append, texts_tokensFrom rfl t]
  rfl

theorem words_append {s : List Char} {c : Char} (hs : Mode.start.advanceAll s = .start)
    (hc : isBlank c = true) (t : List Char) : words (s ++ c :: t) = words s ++ words t := by
  rw [words_eq_map, rawWords_append hs hc, List.map_append, ← words_eq_map, ← words_eq_map]

/-! ## The last word -/

theorem tokensFrom_some_ne_nil (mode : Mode) (pos : Nat) (o : OpenWord) (s : List Char) :
    tokensFrom mode pos (some o) s ≠ [] := by
  induction s generalizing mode pos o with
  | nil => simp [tokensFrom]
  | cons c s ih =>
    rcases blank_or_inside mode c with ⟨rfl, hc⟩ | hc
    · rw [tokensFrom_blank hc, tokensFrom_nil]
      exact List.cons_ne_nil _ _
    · rw [tokensFrom_inside hc]
      exact ih _ _ _

/-- A text without a token holds nothing but blanks. -/
theorem blank_of_tokensFrom {pos : Nat} {s : List Char} (h : tokensFrom .start pos none s = []) :
    ∀ c ∈ s, isBlank c = true := by
  induction s generalizing pos with
  | nil => exact fun c hc => (List.not_mem_nil hc).elim
  | cons c s ih =>
    rcases blank_or_inside .start c with ⟨-, hc⟩ | hc
    · rw [tokensFrom_blank hc] at h
      intro d hd
      rcases List.mem_cons.1 hd with rfl | hd
      · exact hc
      · exact ih h d hd
    · rw [tokensFrom_inside hc] at h
      exact absurd h (tokensFrom_some_ne_nil _ _ _ _)

/-- Where the last token comes from: it goes on with the word that is open at the front of the
text, or stands in the text as a whole. -/
theorem tokensFrom_last {mode : Mode} {pos : Nat} {w : Option OpenWord} {s : List Char}
    {last : Token} (hw : w = none → mode = .start)
    (h : (tokensFrom mode pos w s).getLast? = some last) :
    (∃ o x b, w = some o ∧ s = x ++ b ∧ (∀ c ∈ b, isBlank c = true) ∧
      last = ⟨o.chars.reverse ++ x, o.start, pos + byteLength x⟩ ∧
      tokensFrom mode pos w s = [last]) ∨
    ∃ a x b, s = a ++ x ++ b ∧ mode.advanceAll a = .start ∧ x ≠ [] ∧ (∀ c ∈ b, isBlank c = true) ∧
      last = ⟨x, pos + byteLength a, pos + byteLength (a ++ x)⟩ ∧
      tokensFrom mode pos w s = tokensFrom mode pos w a ++ [last] := by
  induction s generalizing mode pos w with
  | nil =>
    cases w with
    | none => cases h
    | some o =>
      cases h
      exact Or.inl ⟨o, [], [], rfl, rfl, fun c hc => (List.not_mem_nil hc).elim,
        by simp [OpenWord.close, byteLength], rfl⟩
  | cons c s ih =>
    rcases blank_or_inside mode c with ⟨rfl, hc⟩ | hc
    · rw [tokensFrom_blank hc] at h ⊢
      cases htail : tokensFrom .start (pos + c.utf8Size) none s with
      | nil =>
        rw [htail, List.append_nil] at h
        cases w with
        | none => cases h
        | some o =>
          cases h
          refine Or.inl ⟨o, [], c :: s, rfl, rfl, fun d hd => ?_,
            by simp [OpenWord.close, byteLength], rfl⟩
          rcases List.mem_cons.1 hd with rfl | hd
          · exact hc
          · exact blank_of_tokensFrom htail d hd
      | cons t ts =>
        have hlast : (tokensFrom .start (pos + c.utf8Size) none s).getLast? = some last := by
          rw [htail, List.getLast?_append] at h
          rw [htail]
          simpa using h
        rcases ih (fun _ => rfl) hlast with ⟨o, x, b, ho, -⟩ | ⟨a, x, b, rfl, ha, hx, hb, he, hall⟩
        · cases ho
        · refine Or.inr ⟨c :: a, x, b, rfl, ?_, hx, hb, ?_, ?_⟩
          · rw [Mode.advanceAll_cons, advance_of_blank hc, ha]
          · rw [he]
            simp [byteLength, Nat.add_assoc]
          · rw [← htail, hall, tokensFrom_blank hc, List.append_assoc]
    · rw [tokensFrom_inside hc] at h ⊢
      rcases ih (fun he => by cases he) h with ⟨o, x, b, ho, rfl, hb, hlast, hall⟩ |
        ⟨a, x, b, rfl, ha, hx, hb, hlast, hall⟩
      · cases ho
        cases w with
        | none =>
          refine Or.inr ⟨[], c :: x, b, rfl, hw rfl, by simp, hb, ?_, hall⟩
          rw [hlast]
          simp [OpenWord.extend, byteLength, Nat.add_assoc]
        | some o =>
          refine Or.inl ⟨o, c :: x, b, rfl, rfl, hb, ?_, hall⟩
          rw [hlast]
          simp [OpenWord.extend, byteLength, Nat.add_assoc]
      · refine Or.inr ⟨c :: a, x, b, rfl, ha, hx, hb, ?_, ?_⟩
        · rw [hlast]
          simp [byteLength, Nat.add_assoc]
        · rw [hall, tokensFrom_inside hc]

/-- **A line with a word is what stands before its last word, that word, and blanks.** -/
theorem tokenize_last {s : List Char} {last : Token} (h : (tokenize s).getLast? = some last) :
    ∃ a b, s = a ++ last.text ++ b ∧ Mode.start.advanceAll a = .start ∧ last.text ≠ [] ∧
      (∀ c ∈ b, isBlank c = true) ∧ last.start = byteLength a ∧
      last.stop = byteLength (a ++ last.text) ∧ tokenize s = tokenize a ++ [last] := by
  rcases tokensFrom_last (fun _ => rfl) h with
    ⟨o, x, b, ho, -⟩ | ⟨a, x, b, hs, ha, hx, hb, he, hall⟩
  · cases ho
  · rw [he]
    refine ⟨a, b, hs, ha, hx, hb, ?_, ?_, he ▸ hall⟩ <;> simp

end CommandShell.Line
