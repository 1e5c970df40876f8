/-!
# Whole numbers in text

Digits are the ten ASCII digits, leading zeros are allowed, and nothing else is: no blank, no
separator, no second sign.  A range is part of the reading, so a number that does not fit is
no number.

    readDigits? s = some n → s ≠ [] ∧ every character of s is a digit      (readDigits?_eq_some)
-/

namespace CommandShell.Text

/-- The value of one ASCII digit. -/
def digitValue (c : Char) : Nat := c.toNat - 48

/-- The number that a run of digits writes in base ten. -/
def digitsValue (s : List Char) : Nat := s.foldl (fun n c => 10 * n + digitValue c) 0

/-- Reads a non-empty run of digits. -/
def readDigits? (s : List Char) : Option Nat :=
  if s ≠ [] ∧ s.all Char.isDigit then some (digitsValue s) else none

/-- Reads an optional plus sign and digits. -/
def readNat? : List Char → Option Nat
  | '+' :: s => readDigits? s
  | s => readDigits? s

/-- Reads an optional sign and digits. -/
def readInt? : List Char → Option Int
  | '+' :: s => (readDigits? s).map Int.ofNat
  | '-' :: s => (readDigits? s).map fun n => -Int.ofNat n
  | s => (readDigits? s).map Int.ofNat

/-- Reads a number below 2 ^ 64. -/
def readWord? (s : List Char) : Option Nat :=
  (readNat? s).filter fun n => n < Nat.pow 2 64

/-- Reads a number from -2 ^ 63 up to 2 ^ 63 - 1. -/
def readInt64? (s : List Char) : Option Int64 :=
  ((readInt? s).filter fun n => -(Nat.pow 2 63 : Int) ≤ n ∧ n < Nat.pow 2 63).map Int64.ofInt

/-- The digits of a number in base ten. -/
def natDigits (n : Nat) : List Char := Nat.toDigits 10 n

/-- A number in base ten with a minus sign if it is negative. -/
def intText (n : Int) : String :=
  if n < 0 then String.ofList ('-' :: natDigits n.natAbs) else String.ofList (natDigits n.natAbs)

/-! ## Lemmas -/

theorem readDigits?_eq_some {s : List Char} {n : Nat} (h : readDigits? s = some n) :
    s ≠ [] ∧ (∀ c ∈ s, c.isDigit = true) ∧ n = digitsValue s := by
  unfold readDigits? at h
  split at h
  · next hs =>
    obtain ⟨hne, hall⟩ := hs
    exact ⟨hne, by simpa [List.all_eq_true] using hall, by simpa using h.symm⟩
  · simp at h

end CommandShell.Text
