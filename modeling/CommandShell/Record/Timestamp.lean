import CommandShell.Text.Numeral
/-!
# Points in time

Times are milliseconds since the first of January 1970 in UTC.  Records show them as date and
time of day.
-/

namespace CommandShell

/-- Milliseconds since 1970. -/
abbrev Timestamp := Nat

namespace Timestamp

open CommandShell.Text

/-- A number with at least `width` digits. -/
def padded (width n : Nat) : List Char :=
  let digits := natDigits n
  List.replicate (width - digits.length) '0' ++ digits

/-- Year, month and day of a day counted from 1970.  Years begin in March here, so that the leap
day is their last. -/
def civil (day : Nat) : Nat × Nat × Nat :=
  let z := day + 719468
  let era := z / 146097
  let dayOfEra := z % 146097
  let yearOfEra := (dayOfEra - dayOfEra / 1460 + dayOfEra / 36524 - dayOfEra / 146096) / 365
  let dayOfYear := dayOfEra - (365 * yearOfEra + yearOfEra / 4 - yearOfEra / 100)
  let month := (5 * dayOfYear + 2) / 153
  let year := yearOfEra + 400 * era
  (if month < 10 then year else year + 1, if month < 10 then month + 3 else month - 9,
    dayOfYear - (153 * month + 2) / 5 + 1)

/-- The time as date, time of day and, unless they are zero, milliseconds. -/
def text (t : Timestamp) : String :=
  let (year, month, day) := civil (t / 86400000)
  let second := t / 1000 % 86400
  let millis := t % 1000
  String.ofList
    (padded 4 year ++ '-' :: padded 2 month ++ '-' :: padded 2 day ++ 'T' ::
      padded 2 (second / 3600) ++ ':' :: padded 2 (second / 60 % 60) ++ ':' ::
      padded 2 (second % 60) ++ (if millis = 0 then [] else '.' :: padded 3 millis) ++ ['Z'])

end Timestamp

end CommandShell
