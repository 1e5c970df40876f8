import CommandShell.Json.Basic
import CommandShell.Json.Document
/-!
# Reading a JSON value

`Json.parse?` reads a text strictly: numbers must be in range, surrogate escapes must come in
pairs, and containers may be nested at most `maxDepth` deep.

A whole number that fits 64 bits stays a whole number; any other number becomes a float.  The
float comes from at most 64 bits of significand and one multiplication or division by a power of
ten, so that its last digit may differ from the nearest double.
-/

namespace CommandShell.Json

open CommandShell.Text

/-- How deep containers may be nested. -/
def maxDepth : Nat := 127

/-- The text of a written string; a surrogate without its partner has none. -/
def pieceText? : List Piece → Option (List Char)
  | [] => some []
  | .plain c :: rest => (pieceText? rest).map (c :: ·)
  | .unit high :: .unit low :: rest =>
    if 0xD800 ≤ high ∧ high < 0xDC00 then
      if 0xDC00 ≤ low ∧ low < 0xE000 then
        (pieceText? rest).map
          (Char.ofNat (0x10000 + (high - 0xD800) * 0x400 + (low - 0xDC00)) :: ·)
      else none
    else if 0xDC00 ≤ high ∧ high < 0xE000 then none
    else (pieceText? (.unit low :: rest)).map (Char.ofNat high :: ·)
  | .unit n :: rest =>
    if 0xD800 ≤ n ∧ n < 0xE000 then none else (pieceText? rest).map (Char.ofNat n :: ·)

/-- `pieceText?` as a string. -/
def stringOf? (pieces : List Piece) : Option String := (pieceText? pieces).map String.ofList

namespace Numeral

/-- Appends digits to a significand while it fits 64 bits; the digits that do not fit are left. -/
def absorb (significand : Nat) : List Char → Nat × List Char
  | [] => (significand, [])
  | d :: rest =>
    let next := 10 * significand + digitValue d
    if next < Nat.pow 2 64 then absorb next rest else (significand, d :: rest)

/-- A power of ten as a float. -/
def powerOfTen (n : Nat) : Float := Float.ofScientific 1 false n

/-- Divides by `10 ^ 308` as often as `steps` says, stopping at zero, then by `10 ^ rest`. -/
def scaleDown (rest : Nat) : Nat → Float → Float
  | 0, x => x / powerOfTen rest
  | steps + 1, x => if x == 0 then x else scaleDown rest steps (x / powerOfTen 308)

/-- The significand times a power of ten, if that is a finite float. -/
def scale? (significand : Nat) (exponent : Int) : Option Float :=
  let x := significand.toUInt64.toFloat
  if exponent < 0 then
    let n := exponent.natAbs
    let steps := (n - 1) / 308
    some (scaleDown (n - 308 * steps) steps x)
  else if exponent ≤ 308 then
    let y := x * powerOfTen exponent.toNat
    if y.isInf then none else some y
  else if significand = 0 then some x
  else none

/-- The float of a number.  An exponent beyond 32 bits is out of range when it is positive and
the significand is not zero, and gives zero otherwise. -/
def float? (n : Numeral) : Option Float :=
  let (significand, left) := absorb 0 n.whole
  let (significand, unread) := absorb significand n.fraction
  let shift : Int := (left.length : Int) - (n.fraction.length - unread.length : Nat)
  let magnitude := match n.exponent with
    | none => scale? significand shift
    | some e =>
      if e.natAbs < Nat.pow 2 31 then scale? significand (shift + e)
      else if 0 < e ∧ significand ≠ 0 then none
      else some 0
  magnitude.map fun x => if n.negative then -x else x

/-- The value of a number. -/
def value? (n : Numeral) : Option Json :=
  let whole := digitsValue n.whole
  if n.fraction.isEmpty && n.exponent.isNone then
    if n.negative then
      if 0 < whole ∧ whole ≤ Nat.pow 2 63 then some (integer (-whole)) else (float? n).map float
    else if whole < Nat.pow 2 64 then some (integer whole)
    else (float? n).map float
  else (float? n).map float

end Numeral

mutual

/-- The value of a document whose containers may be nested `room` deep. -/
def ofDocument? (room : Nat) : Document → Option Json
  | .null => some null
  | .bool b => some (bool b)
  | .numeral n => n.value?
  | .string pieces => (stringOf? pieces).map string
  | .array items => if room = 0 then none else (itemsOf? (room - 1) items).map array
  | .object named => if room = 0 then none else (fieldsOf? (room - 1) named).map object

def itemsOf? (room : Nat) : List Document → Option (List Json)
  | [] => some []
  | d :: rest =>
    match ofDocument? room d, itemsOf? room rest with
    | some v, some vs => some (v :: vs)
    | _, _ => none

def fieldsOf? (room : Nat) : List (List Piece × Document) → Option (List (String × Json))
  | [] => some []
  | (name, d) :: rest =>
    match stringOf? name, ofDocument? room d, fieldsOf? room rest with
    | some k, some v, some vs => some ((k, v) :: vs)
    | _, _, _ => none

end

/-- Reads a JSON value. -/
def parse? (s : String) : Option Json :=
  (Document.parse? s.toList).bind (ofDocument? maxDepth)

end CommandShell.Json
