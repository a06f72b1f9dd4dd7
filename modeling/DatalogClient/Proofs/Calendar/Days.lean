import DatalogClient.Calendar.Date
import Mathlib.Data.Int.ConditionallyCompleteOrder
import Mathlib.Data.Prod.Lex
import Mathlib.Order.SuccPred.LinearLocallyFinite
import Mathlib.Tactic.IntervalCases
import Mathlib.Tactic.SplitIfs

/-!
# The calendar, day by day

The calendar goes from each day to the next one of the month, from the last one to the first of the
next month, and from December to January. The dates of day counts go on in just that way, over
all leap years and centuries, so a greater count has a later date.

## Main definitions

* `Date.next` — the day after a date
* `Date.rank` — dates by year, then by month, then by day

## Main results

* `Date.ofDays_succ`, `Date.isValid_ofDays` — the date of the next count is the day after, and
  every count has a date of the calendar
* `Date.strictMono_rank` — greater counts have later dates
-/

namespace DatalogClient.Date

/-- The day after a date. -/
def next (d : Date) : Date :=
  if d.day < daysInMonth d.year d.month then { d with day := d.day + 1 }
  else if d.month < 12 then ⟨d.year, d.month + 1, 1⟩
  else ⟨d.year + 1, 1, 1⟩

theorem isLeapYear_iff (year : Int) :
    isLeapYear year = true ↔ year % 4 = 0 ∧ (year % 100 ≠ 0 ∨ year % 400 = 0) := by
  simp [isLeapYear]

/-! ### Months of years that begin in March -/

/-- The number of days from March of a year to the end of the next February. -/
def marchYearDays (year : Int) : Nat := if isLeapYear (year + 1) then 366 else 365

/-- The number of days of a month, the months counted from March on, March being zero. -/
def marchMonthDays (year : Int) (month : Nat) : Nat :=
  if month = 11 then marchYearDays year - daysBeforeMonth 11
  else daysBeforeMonth (month + 1) - daysBeforeMonth month

/-- The date of a day of such a month, the days counted from zero too. -/
def ofMarchMonth (year : Int) (month day : Nat) : Date :=
  if month < 10 then ⟨year, month + 3, day + 1⟩ else ⟨year + 1, month - 9, day + 1⟩

/-- The date of a day of a year that begins in March. -/
def ofMarchYear (year : Int) (day : Nat) : Date :=
  let month := (5 * day + 2) / 153
  ofMarchMonth year month (day - daysBeforeMonth month)

variable {year : Int} {month day : Nat}

theorem le_marchYearDays (year : Int) : 365 ≤ marchYearDays year ∧ marchYearDays year ≤ 366 := by
  unfold marchYearDays
  split_ifs <;> omega

/-- A month ends where the next one begins, and the last one with the year. -/
theorem daysBeforeMonth_add (year : Int) (month : Nat) :
    daysBeforeMonth month + marchMonthDays year month =
      if month = 11 then marchYearDays year else daysBeforeMonth (month + 1) := by
  have hyear := le_marchYearDays year
  unfold marchMonthDays daysBeforeMonth
  split_ifs <;> omega

/-- A month is as long as the calendar has it. -/
theorem daysInMonth_ofMarchMonth (h : month < 12) :
    daysInMonth (ofMarchMonth year month day).year (ofMarchMonth year month day).month =
      marchMonthDays year month := by
  rw [marchMonthDays, marchYearDays]
  interval_cases month <;> simp [ofMarchMonth, daysInMonth, daysBeforeMonth]
  split_ifs <;> rfl

/-- The day after a day of a month. -/
theorem next_ofMarchMonth (h : month < 12) :
    (ofMarchMonth year month day).next =
      if day + 1 < marchMonthDays year month then ofMarchMonth year month (day + 1)
      else if month < 11 then ofMarchMonth year (month + 1) 0
      else ofMarchMonth (year + 1) 0 0 := by
  rw [next, daysInMonth_ofMarchMonth h, ofMarchMonth]
  interval_cases month <;> simp [ofMarchMonth]

/-- A day of a month is a date of the calendar. -/
theorem isValid_ofMarchMonth (hmonth : month < 12) (hday : day < marchMonthDays year month) :
    (ofMarchMonth year month day).isValid = true := by
  rw [isValid, daysInMonth_ofMarchMonth hmonth, ofMarchMonth]
  split_ifs <;> simp <;> omega

/-- The month of a day is found by the days before it. -/
theorem ofMarchYear_eq (h : day < marchMonthDays year month) :
    ofMarchYear year (daysBeforeMonth month + day) = ofMarchMonth year month day := by
  have hyear := le_marchYearDays year
  have hmonth : (5 * (daysBeforeMonth month + day) + 2) / 153 = month := by
    unfold marchMonthDays daysBeforeMonth at h
    unfold daysBeforeMonth
    split_ifs at h <;> omega
  rw [ofMarchYear, hmonth, Nat.add_sub_cancel_left]

/-- Every day of a year lies in a month. -/
theorem exists_marchMonth (h : day < marchYearDays year) :
    ∃ month rest, month < 12 ∧ rest < marchMonthDays year month ∧
      day = daysBeforeMonth month + rest := by
  have hyear := le_marchYearDays year
  refine ⟨(5 * day + 2) / 153, day - daysBeforeMonth ((5 * day + 2) / 153), by omega, ?_, ?_⟩
  · unfold marchMonthDays daysBeforeMonth
    split_ifs <;> omega
  · unfold daysBeforeMonth
    omega

/-- The day after a day of a year. -/
theorem next_ofMarchYear (h : day < marchYearDays year) :
    (ofMarchYear year day).next =
      if day + 1 < marchYearDays year then ofMarchYear year (day + 1)
      else ofMarchYear (year + 1) 0 := by
  obtain ⟨month, rest, hmonth, hrest, rfl⟩ := exists_marchMonth h
  have hyear := le_marchYearDays year
  have hend := daysBeforeMonth_add year month
  rw [ofMarchYear_eq hrest, next_ofMarchMonth hmonth]
  by_cases hlast : month = 11
  · subst hlast
    rw [if_pos rfl] at hend
    -- The last month goes on as long as the year does.
    by_cases hday : rest + 1 < marchMonthDays year 11
    · rw [if_pos hday, if_pos (by omega), Nat.add_assoc, ofMarchYear_eq hday]
    · rw [if_neg hday, if_neg (by decide), if_neg (by omega)]
      rfl
  · rw [if_neg hlast] at hend
    have hnext : daysBeforeMonth (month + 1) < marchYearDays year := by
      unfold daysBeforeMonth
      omega
    rw [if_pos (show month < 11 by omega)]
    by_cases hday : rest + 1 < marchMonthDays year month
    · rw [if_pos hday, if_pos (by omega), Nat.add_assoc, ofMarchYear_eq hday]
    · have hfirst : 0 < marchMonthDays year (month + 1) := by
        unfold marchMonthDays daysBeforeMonth
        split_ifs <;> omega
      have hbegin : daysBeforeMonth month + rest + 1 = daysBeforeMonth (month + 1) + 0 := by omega
      rw [if_neg hday, if_pos (by omega), hbegin, ofMarchYear_eq hfirst]

/-! ### Years of an era -/

/-- A day of an era by its century, the four years in that, the year of these and the day of it. -/
structure Placed (day century quad year rest : Nat) : Prop where
  century_le : century ≤ 3
  quad_le : quad ≤ 24
  year_le : year ≤ 3
  rest_lt : rest < marchYearDays (100 * century + 4 * quad + year : Nat)
  day_eq : day = centuryDays * century + quadDays * quad + 365 * year + rest

/-- Only the last of four years is long, and at the end of a century only if this is the last. -/
theorem marchYearDays_eq {century quad year : Nat} (hcentury : century ≤ 3) (hquad : quad ≤ 24)
    (hyear : year ≤ 3) (era : Int) :
    marchYearDays (400 * era + (100 * century + 4 * quad + year : Nat)) =
      if year = 3 ∧ (quad = 24 → century = 3) then 366 else 365 := by
  rw [marchYearDays]
  refine if_congr ?_ rfl rfl
  rw [isLeapYear_iff]
  omega

/-- The eras are alike. -/
theorem marchYearDays_era (era year : Int) :
    marchYearDays (400 * era + year) = marchYearDays year := by
  simp only [marchYearDays]
  refine if_congr ?_ rfl rfl
  rw [isLeapYear_iff, isLeapYear_iff]
  omega

/-- Every day of an era has a place. -/
theorem exists_placed (h : day < eraDays) :
    ∃ century quad year rest, Placed day century quad year rest := by
  let century := min 3 (day / 36524)
  let quad := (day - 36524 * century) / 1461
  let year := min 3 ((day - 36524 * century - 1461 * quad) / 365)
  simp only [eraDays] at h
  have hcentury : century ≤ 3 := by omega
  have hquad : quad ≤ 24 := by omega
  have hyear : year ≤ 3 := by omega
  have hdays := marchYearDays_eq hcentury hquad hyear 0
  rw [Int.mul_zero, Int.zero_add] at hdays
  refine ⟨century, quad, year, day - 36524 * century - 1461 * quad - 365 * year, hcentury, hquad,
    hyear, ?_, ?_⟩
  · rw [hdays]
    split_ifs <;> omega
  · simp only [centuryDays, quadDays]
    omega

namespace Placed

variable {century quad year rest : Nat}

theorem length_eq (h : Placed day century quad year rest) :
    marchYearDays (100 * century + 4 * quad + year : Nat) =
      if year = 3 ∧ (quad = 24 → century = 3) then 366 else 365 := by
  rw [← marchYearDays_eq h.century_le h.quad_le h.year_le 0, Int.mul_zero, Int.zero_add]

theorem yearOfEra_eq (h : Placed day century quad year rest) :
    yearOfEra day = (100 * century + 4 * quad + year, rest) := by
  have hlength := h.length_eq
  obtain ⟨hcentury, hquad, hyear, hrest, rfl⟩ := h
  simp only [centuryDays, quadDays]
  -- The century, the four years and the year are taken off one after the other.
  have hfirst : min 3 ((36524 * century + 1461 * quad + 365 * year + rest) / 36524) = century := by
    split_ifs at hlength <;> omega
  have hsecond : (1461 * quad + 365 * year + rest) / 1461 = quad := by
    split_ifs at hlength <;> omega
  have hthird : min 3 ((365 * year + rest) / 365) = year := by
    split_ifs at hlength <;> omega
  have hafter : 36524 * century + 1461 * quad + 365 * year + rest - century * 36524 =
      1461 * quad + 365 * year + rest := by omega
  have hafter' : 1461 * quad + 365 * year + rest - quad * 1461 = 365 * year + rest := by omega
  simp only [yearOfEra, centuryDays, quadDays, hfirst, hafter, hsecond, hafter', hthird,
    Nat.add_sub_cancel_left]

/-- The day after lies in the same year unless that ends. -/
theorem succ (h : Placed day century quad year rest)
    (hrest : rest + 1 < marchYearDays (100 * century + 4 * quad + year : Nat)) :
    Placed (day + 1) century quad year (rest + 1) :=
  ⟨h.century_le, h.quad_le, h.year_le, hrest, by rw [h.day_eq, Nat.add_assoc]⟩

/-- The day after the last of a year is the first of the next one, unless the era ends. -/
theorem succ_year (h : Placed day century quad year rest)
    (hrest : ¬ rest + 1 < marchYearDays (100 * century + 4 * quad + year : Nat))
    (hday : day + 1 < eraDays) :
    ∃ century' quad' year', Placed (day + 1) century' quad' year' 0 ∧
      100 * century' + 4 * quad' + year' = 100 * century + 4 * quad + year + 1 := by
  have hlength := h.length_eq
  obtain ⟨hcentury, hquad, hyear, hlt, rfl⟩ := h
  simp only [eraDays, centuryDays, quadDays] at hday
  have hpos (y : Int) : 0 < marchYearDays y := Nat.lt_of_lt_of_le (by decide) (le_marchYearDays y).1
  by_cases hy : year < 3
  · refine ⟨century, quad, year + 1, ⟨hcentury, hquad, hy, hpos _, ?_⟩, rfl⟩
    rw [if_neg (by omega)] at hlength
    omega
  · by_cases hq : quad < 24
    · refine ⟨century, quad + 1, 0, ⟨hcentury, hq, Nat.zero_le 3, hpos _, ?_⟩, by omega⟩
      rw [if_pos (by omega)] at hlength
      simp only [quadDays]
      omega
    · refine ⟨century + 1, 0, 0, ⟨?_, Nat.zero_le 24, Nat.zero_le 3, hpos _, ?_⟩, by omega⟩
      · split_ifs at hlength <;> omega
      · simp only [centuryDays, quadDays]
        split_ifs at hlength <;> omega

/-- The last day of an era is the last one of its last year. -/
theorem last (h : Placed day century quad year rest) (hday : day + 1 = eraDays) :
    100 * century + 4 * quad + year = 399 ∧
      ¬ rest + 1 < marchYearDays (100 * century + 4 * quad + year : Nat) := by
  have hlength := h.length_eq
  obtain ⟨hcentury, hquad, hyear, hlt, rfl⟩ := h
  simp only [eraDays, centuryDays, quadDays] at hday
  split_ifs at hlength <;> omega

end Placed

/-! ### Counts of days -/

/-- The year that begins in March and the day of it, for days counted from March of year zero. -/
def marchYear (days : Int) : Int × Nat :=
  let (year, day) := yearOfEra (days % eraDays).toNat
  (400 * (days / eraDays) + year, day)

theorem ofDays_eq (days : Int) :
    ofDays days = ofMarchYear (marchYear (days + epochDays)).1 (marchYear (days + epochDays)).2 :=
  rfl

theorem exists_era (days : Int) :
    ∃ (era : Int) (day : Nat), day < eraDays ∧ days = eraDays * era + day := by
  refine ⟨days / eraDays, (days % eraDays).toNat, ?_, ?_⟩ <;> simp only [eraDays] <;> omega

theorem Placed.marchYear_eq {century quad year rest : Nat} (h : Placed day century quad year rest)
    (hday : day < eraDays) (era : Int) :
    marchYear (eraDays * era + day) =
      (400 * era + (100 * century + 4 * quad + year : Nat), rest) := by
  have hera : (eraDays * era + day) / eraDays = era := by
    simp only [eraDays] at hday ⊢
    omega
  have hrest : (eraDays * era + day) % eraDays = day := by
    simp only [eraDays] at hday ⊢
    omega
  rw [marchYear, hera, hrest, Int.toNat_natCast, h.yearOfEra_eq]

/-- A count of days never goes beyond the end of its year. -/
theorem marchYear_lt (days : Int) : (marchYear days).2 < marchYearDays (marchYear days).1 := by
  obtain ⟨era, day, hday, rfl⟩ := exists_era days
  obtain ⟨century, quad, year, rest, h⟩ := exists_placed hday
  rw [h.marchYear_eq hday, marchYearDays_era]
  exact h.rest_lt

/-- The next day is the next one of the year, or the first one of the next year. -/
theorem marchYear_succ (days : Int) :
    marchYear (days + 1) =
      if (marchYear days).2 + 1 < marchYearDays (marchYear days).1 then
        ((marchYear days).1, (marchYear days).2 + 1)
      else ((marchYear days).1 + 1, 0) := by
  obtain ⟨era, day, hday, rfl⟩ := exists_era days
  obtain ⟨century, quad, year, rest, h⟩ := exists_placed hday
  rw [h.marchYear_eq hday, marchYearDays_era, Int.add_assoc]
  rcases Nat.lt_or_eq_of_le (Nat.succ_le_of_lt hday) with hnext | hend
  · by_cases hrest : rest + 1 < marchYearDays (100 * century + 4 * quad + year : Nat)
    · rw [if_pos hrest]
      exact (h.succ hrest).marchYear_eq hnext era
    · obtain ⟨century', quad', year', h', hyear⟩ := h.succ_year hrest hnext
      rw [if_neg hrest, Int.add_assoc]
      exact (h'.marchYear_eq hnext era).trans (by rw [hyear]; rfl)
  · -- The next era begins.
    obtain ⟨hyear, hrest⟩ := h.last hend
    have hfirst : Placed 0 0 0 0 0 := ⟨Nat.zero_le 3, Nat.zero_le 24, Nat.zero_le 3, by decide, rfl⟩
    have hera : eraDays * era + (day + 1 : Int) = eraDays * (era + 1) + (0 : Nat) := by
      simp only [eraDays] at hend ⊢
      omega
    rw [if_neg hrest, hera, hfirst.marchYear_eq (by decide), hyear]
    refine Prod.ext ?_ rfl
    omega

/-- The date of the next count of days is the day after. -/
theorem ofDays_succ (days : Int) : ofDays (days + 1) = (ofDays days).next := by
  have hcarry : days + 1 + epochDays = days + epochDays + 1 := by omega
  rw [ofDays_eq, ofDays_eq, next_ofMarchYear (marchYear_lt _), hcarry, marchYear_succ]
  split_ifs <;> rfl

example : ofDays 0 = ⟨1970, 1, 1⟩ := by decide

/-- Every count has a date of the calendar. -/
theorem isValid_ofDays (days : Int) : (ofDays days).isValid = true := by
  obtain ⟨month, rest, hmonth, hrest, hday⟩ := exists_marchMonth (marchYear_lt (days + epochDays))
  rw [ofDays_eq, hday, ofMarchYear_eq hrest]
  exact isValid_ofMarchMonth hmonth hrest

/-- Dates by year, then by month, then by day. -/
def rank (d : Date) : Int ×ₗ Nat ×ₗ Nat := toLex (d.year, toLex (d.month, d.day))

theorem rank_lt_rank_iff {d e : Date} :
    d.rank < e.rank ↔ d.year < e.year ∨
      d.year = e.year ∧ (d.month < e.month ∨ d.month = e.month ∧ d.day < e.day) := by
  simp only [rank, Prod.Lex.toLex_lt_toLex]

theorem rank_lt_rank_next (d : Date) : d.rank < d.next.rank := by
  rw [rank_lt_rank_iff, next]
  split_ifs <;> simp

/-- Of two counts the greater one has the later date. -/
theorem strictMono_rank : StrictMono fun days => (ofDays days).rank := by
  refine strictMono_int_of_lt_succ fun days => ?_
  rw [ofDays_succ]
  exact rank_lt_rank_next _

end DatalogClient.Date
