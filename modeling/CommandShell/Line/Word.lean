import CommandShell.Line.Quoting
/-!
# Words of a line

A line is cut into words at blanks outside quotes.  A `Token` is a word as it stands in the line,
quotes included, with its place in UTF-8 bytes; `arguments` are the words with their quoting
removed.

    tokens of a line = its text less the blanks between words             (tokenize)
    arguments line = (tokenize line).map unquoted                          (arguments)
-/

namespace CommandShell.Line

open CommandShell.Text

/-- The number of bytes of a text in UTF-8. -/
def byteLength : List Char → Nat
  | [] => 0
  | c :: rest => c.utf8Size + byteLength rest

/-- `x` stands in the text from the byte `start` to the byte `stop`: both lie in the text, and
between two of its characters. -/
def Slice (s : List Char) (start stop : Nat) (x : List Char) : Prop :=
  ∃ a b, s = a ++ x ++ b ∧ start = byteLength a ∧ stop = byteLength (a ++ x)

/-- A word as it stands in a line, and the bytes it takes up. -/
structure Token where
  text : List Char
  start : Nat
  stop : Nat
  deriving DecidableEq

/-- A word that the scanner is inside of; its characters are kept last first. -/
structure OpenWord where
  start : Nat
  chars : List Char

/-- The open word with one more character, opened at `pos` if there was none. -/
def OpenWord.extend (pos : Nat) (c : Char) : Option OpenWord → OpenWord
  | none => ⟨pos, [c]⟩
  | some w => ⟨w.start, c :: w.chars⟩

/-- The token that an open word becomes when it ends before the byte `pos`. -/
def OpenWord.close (w : OpenWord) (pos : Nat) : Token := ⟨w.chars.reverse, w.start, pos⟩

/-- The tokens of the rest of a line, of which the scanner has read `pos` bytes. -/
def tokensFrom (mode : Mode) (pos : Nat) : Option OpenWord → List Char → List Token
  | none, [] => []
  | some w, [] => [w.close pos]
  | word, c :: rest =>
    if mode.bare && isBlank c then
      match word with
      | none => tokensFrom mode (pos + c.utf8Size) none rest
      | some w => w.close pos :: tokensFrom mode (pos + c.utf8Size) none rest
    else
      tokensFrom (mode.advance c) (pos + c.utf8Size) (some (OpenWord.extend pos c word)) rest

/-- The tokens of a line. -/
def tokenize (line : List Char) : List Token := tokensFrom .start 0 none line

/-- The words of a line without their quoting. -/
def words (line : List Char) : List (List Char) := (tokenize line).map fun t => unquote t.text

/-- `words` on strings. -/
def arguments (line : String) : List String := (words line.toList).map String.ofList

/-- Words joined by single spaces. -/
def joined (words : List String) : String := String.intercalate " " words

/-! ## Lemmas -/

@[simp] theorem byteLength_append (s t : List Char) :
    byteLength (s ++ t) = byteLength s + byteLength t := by
  induction s with
  | nil => simp [byteLength]
  | cons c s ih => simp [byteLength, ih, Nat.add_assoc]

theorem byteLength_eq_zero_iff (s : List Char) : byteLength s = 0 ↔ s = [] := by
  cases s with
  | nil => exact ⟨fun _ => rfl, fun _ => rfl⟩
  | cons c s =>
    have := c.utf8Size_pos
    refine ⟨fun h => ?_, fun h => by cases h⟩
    rw [byteLength] at h
    omega

@[simp] theorem tokenize_nil : tokenize [] = [] := rfl

@[simp] theorem words_nil : words [] = [] := rfl

end CommandShell.Line
