import CommandShell.Line.Word
/-!
# Texts in quotes

Between quotes no blank cuts a word and no bracket counts.  So a word in double quotes is one
token, whatever blanks, quotes and backslashes it holds.

    quotes leave no character bare but the marks themselves        (noneBare_doubleQuoted)
    a sealed text extends the open word and ends none              (tokensFrom_of_sealed)
    a sealed text by itself is one token                           (tokenize_of_sealed)
    a word in quotes is one token                                  (tokensFrom_doubleQuoted)
-/

namespace CommandShell.Line

open CommandShell.Text

/-- No character that passes the test stands outside quotes and escapes when the text is read
from the mode on. -/
def NoneBare (test : Char → Bool) : Mode → List Char → Prop
  | _, [] => True
  | mode, c :: s => ¬ (mode.bare = true ∧ test c = true) ∧ NoneBare test (mode.advance c) s

instance NoneBare.decide (test : Char → Bool) :
    (mode : Mode) → (s : List Char) → Decidable (NoneBare test mode s)
  | _, [] => isTrue trivial
  | mode, c :: s =>
    have := NoneBare.decide test (mode.advance c) s
    inferInstanceAs (Decidable (_ ∧ _))

/-- No blank of the text is bare. -/
def Sealed (mode : Mode) (s : List Char) : Prop := NoneBare isBlank mode s

theorem noneBare_append {test : Char → Bool} {mode : Mode} {s t : List Char} :
    NoneBare test mode (s ++ t) ↔ NoneBare test mode s ∧ NoneBare test (mode.advanceAll s) t := by
  induction s generalizing mode with
  | nil => simp [NoneBare]
  | cons c s ih =>
    rw [List.cons_append, NoneBare, NoneBare, ih, Mode.advanceAll_cons, and_assoc]

/-- Between double quotes nothing is bare. -/
theorem noneBare_protect (test : Char → Bool) (s : List Char) :
    NoneBare test (.reading .double) (protect s) ∧
      Mode.advanceAll (.reading .double) (protect s) = .reading .double := by
  induction s with
  | nil => exact ⟨trivial, rfl⟩
  | cons c s ih =>
    by_cases hc : c = '\\' ∨ c = '"'
    · have hescape : Mode.advance (.reading .double) '\\' = .escaping .double := rfl
      have hback : Mode.advance (.escaping .double) c = .reading .double := rfl
      rw [protect, if_pos hc, NoneBare, NoneBare, Mode.advanceAll_cons, Mode.advanceAll_cons,
        hescape, hback]
      exact ⟨⟨fun h => Bool.false_ne_true h.1, fun h => Bool.false_ne_true h.1, ih.1⟩, ih.2⟩
    · rw [protect, if_neg hc, NoneBare, Mode.advanceAll_cons, advance_double hc]
      exact ⟨⟨fun h => Bool.false_ne_true h.1, ih.1⟩, ih.2⟩

theorem noneBare_doubleQuoted {test : Char → Bool} (h : test '"' = false) (s : List Char) :
    NoneBare test .start (doubleQuoted s) ∧ Mode.start.advanceAll (doubleQuoted s) = .start := by
  have hopen : Mode.start.advance '"' = .reading .double := rfl
  have hclose : Mode.advance (.reading .double) '"' = .start := rfl
  obtain ⟨hprotect, hmode⟩ := noneBare_protect test s
  have hd : doubleQuoted s = '"' :: (protect s ++ ['"']) := rfl
  rw [hd, NoneBare, Mode.advanceAll_cons, hopen, noneBare_append, Mode.advanceAll_append, hmode,
    Mode.advanceAll_cons, hclose, Mode.advanceAll_nil, h]
  exact ⟨⟨fun hc => Bool.false_ne_true hc.2, hprotect, fun hc => Bool.false_ne_true hc.1, trivial⟩,
    rfl⟩

theorem tokensFrom_of_sealed {mode : Mode} {s : List Char} (h : Sealed mode s) (pos : Nat)
    (w : OpenWord) (rest : List Char) :
    tokensFrom mode pos (some w) (s ++ rest) =
      tokensFrom (mode.advanceAll s) (pos + byteLength s)
        (some ⟨w.start, s.reverse ++ w.chars⟩) rest := by
  induction s generalizing mode pos w with
  | nil => rfl
  | cons c s ih =>
    obtain ⟨hc, hs⟩ := h
    have hblank : (mode.bare && isBlank c) = false := by
      rw [← Bool.not_eq_true, Bool.and_eq_true]
      exact hc
    rw [List.cons_append, tokensFrom, hblank, if_neg Bool.false_ne_true, ih hs]
    simp [OpenWord.extend, byteLength, Nat.add_assoc]

/-- A sealed text is one token. -/
theorem tokenize_of_sealed {s : List Char} (hne : s ≠ []) (h : Sealed .start s) :
    tokenize s = [⟨s, 0, byteLength s⟩] := by
  cases s with
  | nil => exact absurd rfl hne
  | cons c s =>
    obtain ⟨hc, hs⟩ := h
    have hinside : (Mode.start.bare && isBlank c) = false := by
      rw [← Bool.not_eq_true, Bool.and_eq_true]
      exact hc
    have hrest := tokensFrom_of_sealed hs (0 + c.utf8Size) (OpenWord.extend 0 c none) []
    rw [List.append_nil] at hrest
    rw [tokenize, tokensFrom, hinside, if_neg Bool.false_ne_true, hrest]
    simp [tokensFrom, OpenWord.close, OpenWord.extend, byteLength]

/-- A word in quotes is one token, up to whatever follows. -/
theorem tokensFrom_doubleQuoted (pos : Nat) (s rest : List Char) :
    tokensFrom .start pos none (doubleQuoted s ++ rest) =
      tokensFrom .start (pos + byteLength (doubleQuoted s))
        (some ⟨pos, (doubleQuoted s).reverse⟩) rest := by
  obtain ⟨hquoted, hmode⟩ := noneBare_doubleQuoted (show isBlank '"' = false from rfl) s
  have hd : doubleQuoted s = '"' :: (protect s ++ ['"']) := rfl
  rw [hd] at hquoted hmode ⊢
  rw [List.cons_append, tokensFrom, show (Mode.start.bare && isBlank '"') = false from rfl,
    if_neg Bool.false_ne_true, tokensFrom_of_sealed hquoted.2, ← Mode.advanceAll_cons, hmode]
  simp [OpenWord.extend, byteLength, Nat.add_assoc]

end CommandShell.Line
