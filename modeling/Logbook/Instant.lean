/-
Instants of the UTC time line and their text.

An instant is a count of seconds since the start of 1970 and of nanoseconds into
that second. The nanoseconds may reach beyond a second: from `10 ^ 9` on they stand
for the leap second that follows second 59, so that every instant has a place and
the seconds still count days of equal length.

The text is a calendar date and a time of day to the millisecond. Years from 0 to
9999 have four digits; any other year has a sign as well.
-/
import Logbook.Number.Basic

set_option autoImplicit false

namespace Logbook

/-- Seconds since 1970 and nanoseconds, `10 ^ 9` or more of them in a leap second. -/
structure Instant where
  seconds : Int
  nanos : Nat
  deriving DecidableEq, Repr, Inhabited

/-- A day of the Gregorian calendar, extended to all years. -/
structure Date where
  year : Int
  month : Int
  day : Int
  deriving DecidableEq, Repr

namespace Date

/-- Days from the first of March of year 0 to the start of 1970. -/
def epoch : Int := 719468

/-- **The date of a day**, counted from the start of 1970. The calendar repeats every
146097 days, which are 400 years. Within such an era years are counted from March,
so that a leap day is the last of its year, and months in groups of five have 153
days. -/
def ofDay (day : Int) : Date :=
  let z := day + epoch
  let era := z / 146097
  let dayOfEra := z % 146097
  let yearOfEra := (dayOfEra - dayOfEra / 1460 + dayOfEra / 36524 - dayOfEra / 146096) / 365
  let dayOfYear := dayOfEra - (365 * yearOfEra + yearOfEra / 4 - yearOfEra / 100)
  let marchMonth := (5 * dayOfYear + 2) / 153
  let month := if marchMonth < 10 then marchMonth + 3 else marchMonth - 9
  { year := yearOfEra + 400 * era + (if month ≤ 2 then 1 else 0)
    month := month
    day := dayOfYear - (153 * marchMonth + 2) / 5 + 1 }

end Date

namespace Instant

/-- Nanoseconds. -/
def perSecond : Nat := 1000000000

/-- The instant `nanos` nanoseconds after the start of a second. -/
def carry (seconds nanos : Int) : Instant :=
  { seconds := seconds + nanos / perSecond, nanos := (nanos % perSecond).toNat }

/-- **The instant `step` nanoseconds later**, or earlier if `step` is negative. A
second that is followed by a leap second lasts twice as long for an instant that
lies in that leap second; the clock is back in step once it has left. -/
def advance (t : Instant) (step : Int) : Instant :=
  let total := t.nanos + step
  if perSecond ≤ t.nanos then
    if total < 0 then carry t.seconds total
    else if total < 2 * perSecond then { t with nanos := total.toNat }
    else carry t.seconds (total - perSecond)
  else
    carry t.seconds total

/-- A natural number in at least `width` digits. -/
def padded (width n : Nat) : String :=
  let digits := Decimal.digitsOf n
  String.ofList (List.replicate (width - digits.length) '0' ++ digits)

/-- A year in four digits, with a sign if it needs more of them or is before year 0. -/
def yearText (year : Int) : String :=
  if 0 ≤ year ∧ year ≤ 9999 then padded 4 year.toNat
  else (if year < 0 then "-" else "+") ++ padded 4 year.natAbs

/-- **The text of an instant**: date, time of day, and the milliseconds that have
passed, in the layout `TIME_FORMAT`. A leap second is second 60. -/
def text (t : Instant) : String :=
  let date := Date.ofDay (t.seconds / 86400)
  let second := (t.seconds % 86400).toNat
  -- nanoseconds beyond a second are those of a leap second
  let leap := t.nanos / perSecond
  yearText date.year ++ "-" ++ padded 2 date.month.toNat ++ "-" ++ padded 2 date.day.toNat
    ++ "T" ++ padded 2 (second / 3600) ++ ":" ++ padded 2 (second / 60 % 60)
    ++ ":" ++ padded 2 (second % 60 + leap)
    ++ "." ++ padded 3 (t.nanos % perSecond / 1000000) ++ "Z"

end Instant

end Logbook
