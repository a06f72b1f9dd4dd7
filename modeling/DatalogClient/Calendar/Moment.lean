import DatalogClient.Calendar.Date
import DatalogClient.Decimal.Notation

/-!
# Points in time

A moment counts seconds and nanoseconds from the beginning of 1970, in the zone of Greenwich. In a
leap second the nanoseconds go on beyond the billion, and the second is written as the sixtieth.

## Main definitions

* `Moment` — a point in time
* `Moment.millisText` — a moment to the millisecond
* `Moment.briefText` — a moment with as many digits as it needs
-/

namespace DatalogClient

/-- A billion nanoseconds make a second. -/
def nanosPerSecond : Nat := 1000000000

/-- A point in time. -/
structure Moment where
  seconds : Int
  nanos : Nat
deriving DecidableEq

/-- A number with at least so many digits. -/
def padded (width n : Nat) : List Char :=
  let digits := Decimal.digitsOf n
  List.replicate (width - digits.length) '0' ++ digits

/-- A year has four digits; one that needs a sign, or more digits, has a sign. -/
def Date.yearText (year : Int) : List Char :=
  if 0 ≤ year ∧ year ≤ 9999 then padded 4 year.toNat
  else (if year < 0 then '-' else '+') :: padded 4 year.natAbs

/-- Year, month and day, separated by hyphens. -/
def Date.text (d : Date) : List Char :=
  yearText d.year ++ '-' :: padded 2 d.month ++ '-' :: padded 2 d.day

namespace Moment

/-- The moment so many seconds and nanoseconds after the beginning of 1970; nanoseconds carry
over. -/
def ofDuration (seconds : Int) (nanos : Nat) : Moment :=
  ⟨seconds + (nanos / nanosPerSecond : Nat), nanos % nanosPerSecond⟩

/-- The second of the day. -/
def secondOfDay (m : Moment) : Nat := (m.seconds % 86400).toNat

/-- The date. -/
def date (m : Moment) : Date := Date.ofDays (m.seconds / 86400)

/-- The second of the minute. In a leap second it is one more. -/
def second (m : Moment) : Nat := m.secondOfDay % 60 + m.nanos / nanosPerSecond

/-- The nanoseconds since the last second. -/
def fraction (m : Moment) : Nat := m.nanos % nanosPerSecond

/-- Date and time with some digits of a second, and the mark of the zone. -/
def text (m : Moment) (digits : List Char) : String :=
  String.ofList (m.date.text ++ 'T' :: padded 2 (m.secondOfDay / 3600) ++
    ':' :: padded 2 (m.secondOfDay / 60 % 60) ++ ':' :: padded 2 m.second ++ digits ++ ['Z'])

/-- A moment to the millisecond; what is below is cut off. -/
def millisText (m : Moment) : String := m.text ('.' :: padded 3 (m.fraction / 1000000))

/-- A moment with as many groups of three digits as it needs. -/
def briefText (m : Moment) : String :=
  let n := m.fraction
  m.text
    (if n = 0 then []
      else if n % 1000000 = 0 then '.' :: padded 3 (n / 1000000)
      else if n % 1000 = 0 then '.' :: padded 6 (n / 1000)
      else '.' :: padded 9 n)

end Moment

end DatalogClient
