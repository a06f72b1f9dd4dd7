/-!
# Dates

Days are counted from 1 January 1970. A year that begins in March has its leap day at its end, so
every block of four, of a hundred and of four hundred such years consists of equal blocks, apart
from the last one, which may be a day longer or shorter.

## Main definitions

* `Date` — year, month and day
* `Date.ofDays`, `Date.toDays` — dates and day counts
-/

namespace DatalogClient

/-- A date. The year before year one is year zero. -/
structure Date where
  year : Int
  month : Nat
  day : Nat
deriving DecidableEq

namespace Date

/-- From 1 March of year zero to 1 January 1970. -/
def epochDays : Int := 719468

/-- Days of four hundred years. -/
def eraDays : Nat := 146097

/-- Days of a hundred years, without a leap day at the end. -/
def centuryDays : Nat := 36524

/-- Days of four years. -/
def quadDays : Nat := 1461

/-- Days before a month of a year that begins in March, with its months counted from zero. -/
def daysBeforeMonth (m : Nat) : Nat := (153 * m + 2) / 5

/-- The year of an era that a day of the era is in, and the day of that year. -/
def yearOfEra (day : Nat) : Nat × Nat :=
  let century := min 3 (day / centuryDays)
  let day := day - century * centuryDays
  let quad := day / quadDays
  let day := day - quad * quadDays
  let year := min 3 (day / 365)
  (100 * century + 4 * quad + year, day - 365 * year)

/-- The date of a day count. -/
def ofDays (days : Int) : Date :=
  let shifted := days + epochDays
  let (year, day) := yearOfEra (shifted % eraDays).toNat
  let month := (5 * day + 2) / 153
  let year := 400 * (shifted / eraDays) + year
  let day := day - daysBeforeMonth month + 1
  if month < 10 then ⟨year, month + 3, day⟩ else ⟨year + 1, month - 9, day⟩

/-- The day count of a date. -/
def toDays (d : Date) : Int :=
  let year := if d.month ≤ 2 then d.year - 1 else d.year
  let ofEra := year % 400
  let day := daysBeforeMonth ((d.month + 9) % 12) + d.day - 1
  eraDays * (year / 400) + 365 * ofEra + ofEra / 4 - ofEra / 100 + day - epochDays

/-- Leap years are those that four divides, unless a hundred does and four hundred does not. -/
def isLeapYear (year : Int) : Bool := year % 4 == 0 && (year % 100 != 0 || year % 400 == 0)

/-- The number of days of a month. -/
def daysInMonth (year : Int) (month : Nat) : Nat :=
  if month = 2 then if isLeapYear year then 29 else 28
  else if month = 4 || month = 6 || month = 9 || month = 11 then 30
  else 31

/-- The month is one of the year and the day one of the month. -/
def isValid (d : Date) : Bool :=
  1 ≤ d.month && d.month ≤ 12 && 1 ≤ d.day && d.day ≤ daysInMonth d.year d.month

end Date

end DatalogClient
