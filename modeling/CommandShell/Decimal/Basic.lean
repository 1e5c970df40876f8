import CommandShell.Text.Numeral
/-!
# Decimal numbers and the floats nearest to them

A `Decimal` is a number in scientific notation, `coefficient * 10 ^ exponent` with a sign.
`Decimal.toFloat` is the double nearest to it, ties to the even one: infinite beyond the largest
double, zero below half the smallest.

    read? s = some d → s is ASCII digits, at most one point and an optional exponent    (read?)
-/

namespace CommandShell

open CommandShell.Text

structure Decimal where
  negative : Bool
  coefficient : Nat
  exponent : Int
  deriving DecidableEq

namespace Decimal

/-- Reads an exponent part, which may be missing. -/
def readExponent? : List Char → Option Int
  | [] => some 0
  | c :: s => if c = 'e' ∨ c = 'E' then readInt? s else none

/-- Reads digits with at most one point and an optional exponent; a digit must stand beside the
point. -/
def readUnsigned? (s : List Char) : Option Decimal :=
  let (whole, rest) := s.span Char.isDigit
  match rest with
  | '.' :: rest =>
    let (fraction, rest) := rest.span Char.isDigit
    if whole.isEmpty && fraction.isEmpty then none
    else (readExponent? rest).map fun e =>
      ⟨false, digitsValue (whole ++ fraction), e - fraction.length⟩
  | rest =>
    if whole.isEmpty then none
    else (readExponent? rest).map fun e => ⟨false, digitsValue whole, e⟩

/-- Reads a decimal number with or without a sign. -/
def read? : List Char → Option Decimal
  | '+' :: s => readUnsigned? s
  | '-' :: s => (readUnsigned? s).map fun d => { d with negative := true }
  | s => readUnsigned? s

/-- The float nearest to `coefficient * 10 ^ exponent`.  Beyond the range of doubles the power is
not computed. -/
def magnitude (d : Decimal) : Float :=
  let places := d.exponent + (natDigits d.coefficient).length
  if d.coefficient = 0 ∨ places < -330 then 0
  else if 310 < places then 1 / 0
  else Float.ofScientific d.coefficient (d.exponent < 0) d.exponent.natAbs

/-- The float nearest to the number. -/
def toFloat (d : Decimal) : Float := if d.negative then -d.magnitude else d.magnitude

end Decimal

end CommandShell
