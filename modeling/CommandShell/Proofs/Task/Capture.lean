import CommandShell.Task.Capture
import Mathlib.Data.List.DropRight
/-!
# Captured output is the whole text, split

However a task cuts what it prints into pieces, the capture holds what splitting the whole text at
its line breaks gives: the last complete lines, and what is behind the last break.  Finishing
breaks the line that is pending, if there is any.

    wholeText ops            the text of a run; finishing adds the break that is missing
    completeLines t, pendingText t
                             t cut at its line breaks: all parts but the last, and the last
    one character of the text is one step of the capture                       (Holds.put)
    a capture holds the whole text, split                       (capture_splits_whole_text)
-/

namespace CommandShell.Capture

/-- What is done to a capture. -/
inductive Op where
  | write (text : String)
  | finish
  deriving DecidableEq

def apply (c : Capture) : Op → Capture
  | .write text => c.write text
  | .finish => c.finish

/-- A new capture after a run. -/
def run (limit : Nat) (ops : List Op) : Capture := ops.foldl apply (empty limit)

/-- The whole text after one more operation. -/
def extend (text : List Char) : Op → List Char
  | .write more => text ++ more.toList
  | .finish => if text = [] ∨ text.getLast? = some '\n' then text else text ++ ['\n']

/-- The whole text of a run. -/
def wholeText (ops : List Op) : List Char := ops.foldl extend []

/-- The lines of a text that a break ends. -/
def completeLines (text : List Char) : List String :=
  (text.splitOn '\n').dropLast.map String.ofList

/-- The text behind the last break. -/
def pendingText (text : List Char) : String :=
  String.ofList ((text.splitOn '\n').getLastD [])

/-! ## Splitting one character further -/

variable {text : List Char}

theorem exists_splitOn_eq (text : List Char) :
    ∃ parts last, text.splitOn '\n' = parts ++ [last] :=
  ⟨_, _, (List.dropLast_concat_getLast (List.splitOn_ne_nil '\n' text)).symm⟩

theorem splitOn_concat_break {parts : List (List Char)} {last : List Char}
    (h : text.splitOn '\n' = parts ++ [last]) :
    (text ++ ['\n']).splitOn '\n' = parts ++ [last] ++ [[]] := by
  rw [← h]
  exact List.splitOnP_append_cons text [] (beq_self_eq_true '\n')

/-- Another character goes to the last part. -/
theorem exists_splitOn_concat {ch : Char} (hch : ch ≠ '\n') (text : List Char) :
    ∃ parts last, text.splitOn '\n' = parts ++ [last] ∧
      (text ++ [ch]).splitOn '\n' = parts ++ [last ++ [ch]] := by
  have hcons (x : Char) (rest : List Char) : (x :: rest).splitOn '\n' =
      if x = '\n' then [] :: rest.splitOn '\n' else (rest.splitOn '\n').modifyHead (x :: ·) := by
    simp only [List.splitOn, List.splitOnP_cons_eq_if_modifyHead, beq_iff_eq]
  induction text with
  | nil =>
    refine ⟨[], [], rfl, ?_⟩
    rw [List.nil_append, hcons, if_neg hch]
    rfl
  | cons x text ih =>
    obtain ⟨parts, last, hsplit, hconcat⟩ := ih
    rw [List.cons_append, hcons, hcons, hsplit, hconcat]
    by_cases hx : x = '\n'
    · rw [if_pos hx, if_pos hx]
      exact ⟨[] :: parts, last, rfl, rfl⟩
    · rw [if_neg hx, if_neg hx]
      cases parts with
      | nil => exact ⟨[], x :: last, rfl, rfl⟩
      | cons part parts => exact ⟨(x :: part) :: parts, last, rfl, rfl⟩

/-! ## What a capture holds -/

/-- A capture holds a text: the last complete lines of it and what is behind the last break. -/
structure Holds (limit : Nat) (text : List Char) (c : Capture) : Prop where
  bound : c.limit = limit
  complete : c.complete = (completeLines text).rtake limit
  dropped : c.dropped = (completeLines text).length - limit
  pending : c.pending.reverse = (text.splitOn '\n').getLastD []

theorem rtake_concat {α : Type} {limit : Nat} (h : 0 < limit) (xs : List α) (x : α) :
    (xs ++ [x]).rtake limit =
      if (xs.rtake limit).length < limit then xs.rtake limit ++ [x]
      else (xs.rtake limit).drop 1 ++ [x] := by
  obtain ⟨n, rfl⟩ : ∃ n, limit = n + 1 := ⟨limit - 1, by omega⟩
  have hlength : (xs.rtake (n + 1)).length = xs.length - (xs.length - (n + 1)) :=
    List.length_drop
  rw [List.rtake_concat_succ]
  split
  · next hroom =>
    have hle : xs.length ≤ n := by omega
    rw [List.rtake, List.rtake, Nat.sub_eq_zero_of_le hle, Nat.sub_eq_zero_of_le (by omega)]
  · next hfull =>
    rw [List.rtake, List.rtake, List.drop_drop]
    congr 2
    omega

variable {limit : Nat} {c : Capture}

/-- Completing the pending line is breaking the text. -/
theorem Holds.complete_line (hlimit : 0 < limit) (h : Holds limit text c) :
    Holds limit (text ++ ['\n'])
      { c.push (String.ofList c.pending.reverse) with pending := [] } := by
  obtain ⟨parts, last, hsplit⟩ := exists_splitOn_eq text
  have hbroken := splitOn_concat_break hsplit
  have hold : completeLines text = parts.map String.ofList := by
    rw [completeLines, hsplit, List.dropLast_concat]
  have hnew : completeLines (text ++ ['\n']) = completeLines text ++ [String.ofList last] := by
    rw [completeLines, hbroken, List.dropLast_concat, List.map_append, hold]
    rfl
  have hlast : c.pending.reverse = last := by
    rw [h.pending, hsplit, List.getLastD_concat]
  have hlength : c.complete.length < c.limit ↔ (completeLines text).length < limit := by
    rw [h.complete, h.bound, List.rtake, List.length_drop]
    omega
  refine ⟨?_, ?_, ?_, ?_⟩
  · unfold push
    split <;> exact h.bound
  · rw [hnew, rtake_concat hlimit, ← h.complete, ← h.bound, hlast]
    unfold push
    split <;> rfl
  · rw [hnew, List.length_append, List.length_singleton]
    unfold push
    split
    · next hroom =>
      have := hlength.1 hroom
      have := h.dropped
      dsimp only
      omega
    · next hfull =>
      have := mt hlength.2 hfull
      have := h.dropped
      dsimp only
      omega
  · rw [hbroken, List.getLastD_concat]
    rfl

theorem Holds.put (hlimit : 0 < limit) (h : Holds limit text c) (ch : Char) :
    Holds limit (text ++ [ch]) (c.put ch) := by
  unfold Capture.put
  split
  · next hch =>
    subst hch
    exact h.complete_line hlimit
  · next hch =>
    obtain ⟨parts, last, hsplit, hconcat⟩ := exists_splitOn_concat hch text
    have hsame : completeLines (text ++ [ch]) = completeLines text := by
      rw [completeLines, completeLines, hconcat, hsplit, List.dropLast_concat,
        List.dropLast_concat]
    refine ⟨h.bound, ?_, ?_, ?_⟩
    · rw [hsame]
      exact h.complete
    · rw [hsame]
      exact h.dropped
    · rw [hconcat, List.getLastD_concat, List.reverse_cons, h.pending, hsplit,
        List.getLastD_concat]

theorem Holds.write (hlimit : 0 < limit) (h : Holds limit text c) (more : String) :
    Holds limit (text ++ more.toList) (c.write more) := by
  rw [write_eq_foldl]
  induction more.toList generalizing text c with
  | nil => simpa using h
  | cons ch rest ih => simpa using ih (h.put hlimit ch)

/-- The pending line is empty where a text is, or ends with a break. -/
theorem getLastD_splitOn_eq_nil_iff (text : List Char) :
    (text.splitOn '\n').getLastD [] = [] ↔ text = [] ∨ text.getLast? = some '\n' := by
  rcases List.eq_nil_or_concat text with rfl | ⟨before, ch, rfl⟩
  · simp [List.splitOn]
  · by_cases hch : ch = '\n'
    · subst hch
      obtain ⟨parts, last, hsplit⟩ := exists_splitOn_eq before
      simp [splitOn_concat_break hsplit]
    · obtain ⟨parts, last, -, hconcat⟩ := exists_splitOn_concat hch before
      simp [hconcat, hch]

theorem Holds.finish (hlimit : 0 < limit) (h : Holds limit text c) :
    Holds limit (extend text .finish) c.finish := by
  have hempty : c.pending.isEmpty = true ↔ text = [] ∨ text.getLast? = some '\n' := by
    rw [← getLastD_splitOn_eq_nil_iff, ← h.pending, List.isEmpty_iff, List.reverse_eq_nil_iff]
  unfold Capture.finish extend
  by_cases hpending : c.pending.isEmpty = true
  · simp only [hpending, hempty.1 hpending, if_true]
    exact h
  · simp only [hpending, mt hempty.2 hpending, if_false]
    exact h.complete_line hlimit

theorem Holds.apply (hlimit : 0 < limit) (h : Holds limit text c) (op : Op) :
    Holds limit (extend text op) (c.apply op) := by
  cases op with
  | write more => exact h.write hlimit more
  | finish => exact h.finish hlimit

/-- A run leaves a capture that holds the whole text. -/
theorem holds_run (limit : Nat) (ops : List Op) :
    Holds (max limit 1) (wholeText ops) (run limit ops) := by
  have hlimit : 0 < max limit 1 := by omega
  induction ops using List.reverseRecOn with
  | nil => exact ⟨rfl, (List.rtake_nil _).symm, (Nat.zero_sub _).symm, rfl⟩
  | append_singleton ops op ih =>
    rw [run, wholeText, List.foldl_concat, List.foldl_concat]
    exact ih.apply hlimit op

theorem pendingLine_of_holds (h : Holds limit text c) :
    c.pendingLine = if pendingText text = "" then [] else [pendingText text] := by
  rw [pendingText, ← h.pending, pendingLine]
  cases c.pending with
  | nil => rfl
  | cons ch rest => simp [String.ext_iff]

theorem finish_finish (c : Capture) : c.finish.finish = c.finish := by
  unfold finish
  by_cases h : c.pending.isEmpty = true
  · simp only [h, if_true]
  · simp [h]

/-- **A capture is the whole text, split.**  Two texts written one after the other are one text,
and finishing twice is finishing once.  After any run the lines are the last complete lines of the
whole text, at least one of them, and the pending text if there is any; the lines before those are
counted as dropped. -/
theorem capture_splits_whole_text :
    (∀ (c : Capture) (a b : String),
      (c.write a).write b = c.write (a ++ b) ∧ c.finish.finish = c.finish) ∧
    ∀ (limit : Nat) (ops : List Op),
      let c := run limit ops
      let complete := completeLines (wholeText ops)
      let pending := pendingText (wholeText ops)
      c.lines = complete.rtake (max limit 1) ++ (if pending = "" then [] else [pending]) ∧
      c.dropped = complete.length - min complete.length (max limit 1) ∧
      c.lineCount = c.lines.length ∧ ∀ n, c.tail n = c.lines.rtake n := by
  refine ⟨fun c a b => ⟨(write_append c a b).symm, finish_finish c⟩, fun limit ops => ?_⟩
  have h := holds_run limit ops
  refine ⟨?_, ?_, lineCount_eq_length_lines _, fun n => rfl⟩
  · rw [lines, h.complete, pendingLine_of_holds h]
  · rw [h.dropped]
    omega

example : (run 1 [.write "a\nb", .finish, .write "\n", .write "c"]).lines = ["", "c"] := by
  decide

end CommandShell.Capture
