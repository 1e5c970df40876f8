import CommandShell.Decimal.Basic
/-!
# The shortest digits of a float

`shortest x` is the decimal with the fewest digits that reads back as `x`, and of those the one
nearest to `x`.

A positive double is `m * 2 ^ q`.  The reals that round to it reach half way to its neighbours,
both ends included when `m` is even.  For each number of digits in turn, the two points of that
decimal grid around the value are tried; if any point of a grid reads back, one of these two
does.
-/

namespace CommandShell.Decimal

open CommandShell.Text

/-- A positive double as `mantissa * 2 ^ exponent`; `lowest` says that the gap below it is half
the gap above. -/
structure Binary where
  mantissa : Nat
  exponent : Int
  lowest : Bool

/-- Takes the magnitude of a double apart, given its bits. -/
def Binary.ofBits (bits : Nat) : Binary :=
  let field : Nat := bits / Nat.pow 2 52 % Nat.pow 2 11
  let fraction : Nat := bits % Nat.pow 2 52
  if field = 0 then ⟨fraction, -1074, false⟩
  else ⟨fraction + Nat.pow 2 52, (field : Int) - 1075, fraction = 0 && 1 < field⟩

/-- A value and the interval that rounds to it, as fractions over one denominator. -/
structure Interval where
  value : Nat
  low : Nat
  high : Nat
  denominator : Nat
  closed : Bool

/-- The interval of the reals that round to a double, in quarters of its last place. -/
def Binary.interval (b : Binary) : Interval :=
  let up := Nat.pow 2 (b.exponent - 2).toNat
  let down := Nat.pow 2 (2 - b.exponent).toNat
  { value := 4 * b.mantissa * up
    low := (4 * b.mantissa - if b.lowest then 1 else 2) * up
    high := (4 * b.mantissa + 2) * up
    denominator := down
    closed := b.mantissa % 2 = 0 }

/-- The power of ten of the leading digit of `value / denominator`. -/
def Interval.leading (i : Interval) : Int :=
  if i.denominator ≤ i.value then ((natDigits (i.value / i.denominator)).length : Int) - 1
  else
    let places := (natDigits (i.denominator / i.value)).length
    if i.denominator ≤ i.value * Nat.pow 10 (places - 1) then -((places : Int) - 1) else -places

/-- Whether `n * 10 ^ power` lies in the interval. -/
def Interval.holds (i : Interval) (n : Nat) (power : Int) : Bool :=
  let point := n * Nat.pow 10 power.toNat * i.denominator
  let scale := Nat.pow 10 (-power).toNat
  if i.closed then i.low * scale ≤ point && point ≤ i.high * scale
  else i.low * scale < point && point < i.high * scale

/-- Of the two multiples of `10 ^ power` around the value, the nearest one in the interval; the
even one when both are equally near. -/
def Interval.nearest (i : Interval) (power : Int) : Option Nat :=
  let scaled := i.value * Nat.pow 10 (-power).toNat
  let unit := i.denominator * Nat.pow 10 power.toNat
  let below := scaled / unit
  let rest := scaled % unit
  let upFirst := unit < 2 * rest || (2 * rest = unit && below % 2 = 1)
  let order := if upFirst then [below + 1, below] else [below, below + 1]
  order.find? fun n => i.holds n power

/-- Tries `fuel` numbers of digits, the leading digit being at `10 ^ leading`. -/
def Interval.search (i : Interval) (leading : Int) : Nat → Nat → Nat × Int
  | 0, _ => (0, 0)
  | fuel + 1, digits =>
    let power := leading - digits + 1
    match i.nearest power with
    | some n => (n, power)
    | none => Interval.search i leading fuel (digits + 1)

/-- Moves the trailing zeros of a coefficient into its exponent. -/
def dropZeros (fuel : Nat) (n : Nat) (power : Int) : Nat × Int :=
  match fuel with
  | 0 => (n, power)
  | fuel + 1 => if n ≠ 0 ∧ n % 10 = 0 then dropZeros fuel (n / 10) (power + 1) else (n, power)

/-- The shortest decimal that reads back as the finite float `x`; seventeen digits always do. -/
def shortest (x : Float) : Decimal :=
  let bits := x.toBits.toNat
  let negative := bits / Nat.pow 2 63 = 1
  let magnitude := bits % Nat.pow 2 63
  if magnitude = 0 then ⟨negative, 0, 0⟩
  else
    let i := (Binary.ofBits magnitude).interval
    let (n, power) := i.search i.leading 17 1
    let (n, power) := dropZeros 20 n power
    ⟨negative, n, power⟩

end CommandShell.Decimal
