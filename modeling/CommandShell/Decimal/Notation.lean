import CommandShell.Decimal.Shortest
/-!
# How a float is written

A `Notation` says where positional writing ends and how an exponent looks; `write` applies it to
the shortest digits of a float.
-/

namespace CommandShell.Decimal

open CommandShell.Text

/-- The choices of a way to write floats: the least and the greatest power of ten of the leading
digit that is written positionally, and the text between the digits and a positive or negative
exponent. -/
structure Style where
  leastPositional : Int
  greatestPositional : Int
  positiveMark : List Char
  negativeMark : List Char

/-- Powers from -5 to 15 are written positionally, other ones with a signed exponent. -/
def Style.signed : Style := ⟨-5, 15, ['e', '+'], ['e', '-']⟩

/-- Digits with a point behind the first; one digit alone has no point. -/
def pointed : List Char → List Char
  | [] => []
  | [d] => [d]
  | d :: rest => d :: '.' :: rest

/-- Digits of which the first counts `10 ^ leading`, written without an exponent and with at
least one digit on each side of the point. -/
def positional (digits : List Char) (leading : Int) : List Char :=
  if leading < 0 then '0' :: '.' :: List.replicate (leading.natAbs - 1) '0' ++ digits
  else
    let whole := leading.toNat + 1
    if digits.length ≤ whole then
      digits ++ List.replicate (whole - digits.length) '0' ++ ['.', '0']
    else digits.take whole ++ '.' :: digits.drop whole

/-- Writes a finite float with its shortest digits. -/
def Style.write (style : Style) (x : Float) : List Char :=
  let d := shortest x
  let digits := natDigits d.coefficient
  let leading := d.exponent + digits.length - 1
  let body :=
    if style.leastPositional ≤ leading ∧ leading ≤ style.greatestPositional then
      positional digits leading
    else if leading < 0 then pointed digits ++ style.negativeMark ++ natDigits leading.natAbs
    else pointed digits ++ style.positiveMark ++ natDigits leading.natAbs
  if d.negative then '-' :: body else body

end CommandShell.Decimal
