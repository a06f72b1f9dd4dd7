import DatalogClient.Calendar.Moment
import DatalogClient.Text.Blank

/-!
# Dates and times as people write them

The reader takes dates and times of ISO 8601 and is lenient about blanks and leading zeros. A `T`
or a space stands between date and time; a zone must follow. The sixtieth second is a leap second.

## Main definitions

* `TimeFlaw` — what can be wrong
* `Moment.ofText` — the moment of a text
-/

namespace DatalogClient

/-- What can be wrong with a date and time. -/
inductive TimeFlaw where
  | tooShort
  | invalid
  | outOfRange
  | tooLong
  | impossible
deriving DecidableEq

/-- The text of a flaw. -/
def TimeFlaw.message : TimeFlaw → String
  | tooShort => "premature end of input"
  | invalid => "input contains invalid characters"
  | outOfRange => "input is out of range"
  | tooLong => "trailing input"
  | impossible => "no possible date and time matching input"

namespace Calendar

open Text (trimStart)

/-- Something read, and what is left. -/
abbrev Step (α : Type) := List Char → Except TimeFlaw (α × List Char)

/-- The first number that a signed word of sixty-four bits does not hold. -/
def numberLimit : Nat := 9223372036854775808

/-- A number of at least one digit and at most `width`, if there is a bound. -/
def number (width : Option Nat) : Step Nat := fun s =>
  let digits := (match width with
    | some w => s.take w
    | none => s).takeWhile Char.isDigit
  let n := digits.foldl (fun n d => 10 * n + (d.toNat - 48)) 0
  if s.isEmpty then .error .tooShort
  else if digits.isEmpty then .error .invalid
  else if numberLimit ≤ n then .error .outOfRange
  else .ok (n, s.drop digits.length)

/-- A number of two digits at most within bounds. Blanks may come before it. -/
def field (least greatest : Nat) : Step Nat := fun s => do
  let (n, s) ← number (some 2) (trimStart s)
  if least ≤ n && n ≤ greatest then .ok (n, s) else .error .outOfRange

/-- A separator. Blanks may come before it. -/
def separator (c : Char) : Step Unit := fun s =>
  match trimStart s with
  | [] => .error .tooShort
  | d :: rest => if d = c then .ok ((), rest) else .error .invalid

/-- The first year that a signed word of thirty-two bits does not hold. -/
def yearLimit : Int := 2147483648

/-- A year. Without a sign it has four digits at most. -/
def year : Step Int := fun s => do
  let (y, s) ← (match trimStart s with
    | '-' :: s => (number none s).map fun (n, s) => ((-n : Int), s)
    | '+' :: s => (number none s).map fun (n, s) => ((n : Int), s)
    | s => (number (some 4) s).map fun (n, s) => ((n : Int), s))
  if -yearLimit ≤ y && y < yearLimit then .ok (y, s) else .error .outOfRange

/-- A date. -/
def date : Step Date := fun s => do
  let (year, s) ← year s
  let ((), s) ← separator '-' s
  let (month, s) ← field 1 12 s
  let ((), s) ← separator '-' s
  let (day, s) ← field 1 31 s
  return (⟨year, month, day⟩, s)

/-- What stands between date and time. -/
def divider : Step Unit
  | [] => .error .tooShort
  | c :: s => if c = 'T' || c = 't' || c = ' ' then .ok ((), s) else .error .invalid

/-- A fraction of a second in nanoseconds. Digits after the ninth do not count. -/
def fraction : Step Nat
  | '.' :: s => do
    let (n, rest) ← number (some 9) s
    let count := (s.takeWhile Char.isDigit).length
    return (n * Nat.pow 10 (9 - min 9 count), rest.dropWhile Char.isDigit)
  | s => .ok (0, s)

/-- A time of day: hour, minute, second and nanoseconds. -/
structure Clock where
  hour : Nat
  minute : Nat
  second : Nat
  nanos : Nat

/-- A time of day. -/
def clock : Step Clock := fun s => do
  let (hour, s) ← field 0 23 s
  let ((), s) ← separator ':' s
  let (minute, s) ← field 0 59 s
  let ((), s) ← separator ':' s
  let (second, s) ← field 0 60 s
  let (nanos, s) ← fraction s
  return (⟨hour, minute, second, nanos⟩, s)

/-- Two digits. They are looked for in the next two bytes. -/
def twoDigits : Step (Nat × Nat)
  | a :: b :: s =>
    if a.isDigit && b.isDigit then .ok ((a.toNat - 48, b.toNat - 48), s) else .error .invalid
  | [a] => if a.utf8Size < 2 then .error .tooShort else .error .invalid
  | [] => .error .tooShort

/-- The seconds that a zone is ahead, after its sign. -/
def zoneDistance : Step Nat := fun s => do
  let ((a, b), s) ← twoDigits s
  let ((c, d), s) ← twoDigits (s.dropWhile fun ch => ch = ':' || Text.isBlank ch)
  if 5 < c then .error .outOfRange
  else return (3600 * (10 * a + b) + 60 * (10 * c + d), s)

/-- The seconds that a zone is ahead. -/
def zone : Step Int := fun s =>
  let three := String.ofList ((s.take 3).map Char.toLower)
  if three = "utc" then .ok (0, s.drop 3)
  else
    match s with
    | [] => .error .tooShort
    | c :: s =>
      if c = 'Z' || c = 'z' then .ok (0, s)
      else if c = '+' then (zoneDistance s).map fun (n, s) => ((n : Int), s)
      else if c = '-' || c = '\u2212' then (zoneDistance s).map fun (n, s) => ((-n : Int), s)
      else .error .invalid

/-- The years that dates reach. -/
def isYear (year : Int) : Bool := -262143 ≤ year && year ≤ 262142

/-- The moment of a date and a time of day in a zone. -/
def moment (date : Date) (clock : Clock) (zone : Int) : Except TimeFlaw Moment :=
  if !isYear date.year || !date.isValid then .error .outOfRange
  else if zone ≤ -86400 || 86400 ≤ zone then .error .outOfRange
  else
    let leap := clock.second = 60
    let seconds : Int := 86400 * date.toDays + (3600 * clock.hour + 60 * clock.minute : Nat) +
      (if leap then 59 else clock.second : Nat) - zone
    let found : Moment := ⟨seconds, if leap then nanosPerSecond + clock.nanos else clock.nanos⟩
    if isYear found.date.year then .ok found else .error .impossible

end Calendar

/-- The moment of a text. -/
def Moment.ofText (text : String) : Except TimeFlaw Moment := do
  let (date, s) ← Calendar.date text.toList
  let ((), s) ← Calendar.divider s
  let (clock, s) ← Calendar.clock s
  let (zone, s) ← Calendar.zone (Text.trimStart s)
  if (Text.trimStart s).isEmpty then Calendar.moment date clock zone else .error .tooLong

end DatalogClient
