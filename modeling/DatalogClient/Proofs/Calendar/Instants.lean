import DatalogClient.Proofs.Calendar.Days
import DatalogClient.Proofs.Text.ByteOrder
import DatalogClient.Proofs.Text.Fields
import DatalogClient.Value.Encode

/-!
# The order of instants

An instant is written in the zone of Greenwich to the millisecond, in fields of fixed width from the
year down. So texts of instants are ordered as the instants are, once these are cut to the
millisecond.

## Main definitions

* `Moment.millis` — the whole milliseconds from the beginning of 1970
* `Moment.IsPlain` — a year of four digits, and no leap second
* `Time.moment?` — the moment of a point in time

## Main results

* `TypedText.instants_ordered` — texts of instants are ordered as times
-/

namespace DatalogClient

namespace Moment

/-- The whole milliseconds from the beginning of 1970 on; what is below is cut off towards the
past. -/
def millis (m : Moment) : Int := (m.seconds * nanosPerSecond + m.nanos) / 1000000

/-- The year is one of the first ten thousand, and the second is no leap second. -/
structure IsPlain (m : Moment) : Prop where
  year_nonneg : 0 ≤ m.date.year
  year_le : m.date.year ≤ 9999
  nanos_lt : m.nanos < nanosPerSecond

/-- The fields of a date, with their widths less one. -/
def dateLayout : List (Nat × Char) := [(3, '-'), (1, '-'), (1, 'T')]

/-- The fields of a time of day. -/
def clockLayout : List (Nat × Char) := [(1, ':'), (1, ':'), (1, '.'), (2, 'Z')]

/-- Year, month and day. -/
def dateNumbers (m : Moment) : List Nat := [m.date.year.toNat, m.date.month, m.date.day]

/-- Hour, minute, second and millisecond. -/
def clockNumbers (m : Moment) : List Nat :=
  [m.secondOfDay / 3600, m.secondOfDay / 60 % 60, m.secondOfDay % 60, m.nanos / 1000000]

variable {a b : Moment}

theorem toList_millisText (h : a.IsPlain) : a.millisText.toList =
    Text.row (dateLayout ++ clockLayout) (a.dateNumbers ++ a.clockNumbers) := by
  obtain ⟨hnonneg, hle, hnanos⟩ := h
  simp only [millisText, text, String.toList_ofList, Date.text, Date.yearText, hnonneg, hle,
    and_self, if_true, second, fraction, Nat.div_eq_of_lt hnanos, Nat.mod_eq_of_lt hnanos]
  simp [Text.row, dateLayout, clockLayout, dateNumbers, clockNumbers]

theorem fits_dateNumbers (h : a.IsPlain) : Text.Fits dateLayout a.dateNumbers := by
  have hvalid : a.date.isValid = true := Date.isValid_ofDays _
  have hlength : Date.daysInMonth a.date.year a.date.month ≤ 31 := by
    unfold Date.daysInMonth
    split_ifs <;> decide
  simp only [Date.isValid, Bool.and_eq_true, decide_eq_true_eq] at hvalid
  have hyear := h.year_le
  refine .cons ?_ (.cons ?_ (.cons ?_ .nil)) <;> norm_num <;> omega

theorem secondOfDay_lt (m : Moment) : m.secondOfDay < 86400 := by
  unfold secondOfDay
  omega

theorem fits_clockNumbers (h : a.IsPlain) : Text.Fits clockLayout a.clockNumbers := by
  have hsecond := a.secondOfDay_lt
  have hnanos : a.nanos < 1000000000 := h.nanos_lt
  refine .cons ?_ (.cons ?_ (.cons ?_ (.cons ?_ .nil))) <;> norm_num <;> omega

theorem fits_numbers (h : a.IsPlain) :
    Text.Fits (dateLayout ++ clockLayout) (a.dateNumbers ++ a.clockNumbers) :=
  List.rel_append (fits_dateNumbers h) (fits_clockNumbers h)

/-! ### The order of moments -/

/-- The milliseconds within the day. -/
def milliOfDay (m : Moment) : Nat := 1000 * m.secondOfDay + m.nanos / 1000000

/-- Milliseconds are those of the days before and those within the day. -/
theorem millis_eq (m : Moment) :
    m.millis = 86400000 * (m.seconds / 86400) + m.milliOfDay := by
  simp only [millis, milliOfDay, secondOfDay, nanosPerSecond]
  omega

theorem milliOfDay_lt (h : a.IsPlain) : a.milliOfDay < 86400000 := by
  have hsecond := a.secondOfDay_lt
  have hnanos : a.nanos < 1000000000 := h.nanos_lt
  unfold milliOfDay
  omega

/-- The day decides first, then the time of day. -/
theorem millis_lt_millis_iff (ha : a.IsPlain) (hb : b.IsPlain) :
    a.millis < b.millis ↔ a.seconds / 86400 < b.seconds / 86400 ∨
      a.seconds / 86400 = b.seconds / 86400 ∧ a.milliOfDay < b.milliOfDay := by
  have hafter := milliOfDay_lt ha
  have hafter' := milliOfDay_lt hb
  rw [millis_eq, millis_eq]
  omega

theorem dateNumbers_lt_of_lt (ha : a.IsPlain)
    (h : a.seconds / 86400 < b.seconds / 86400) : a.dateNumbers < b.dateNumbers := by
  have hrank := Date.rank_lt_rank_iff.mp (Date.strictMono_rank h)
  have hyear : 0 ≤ (Date.ofDays (a.seconds / 86400)).year := ha.year_nonneg
  simp only [dateNumbers, date, List.cons_lt_cons_iff]
  omega

theorem dateNumbers_lt_iff (ha : a.IsPlain) (hb : b.IsPlain) :
    a.dateNumbers < b.dateNumbers ↔ a.seconds / 86400 < b.seconds / 86400 := by
  refine ⟨fun h => Int.not_le.mp fun hle => ?_, dateNumbers_lt_of_lt ha⟩
  rcases Int.lt_or_eq_of_le hle with hlt | heq
  · exact List.lt_asymm h (dateNumbers_lt_of_lt hb hlt)
  · have hdate : b.date = a.date := congrArg Date.ofDays heq
    rw [dateNumbers, dateNumbers, hdate] at h
    exact List.lt_irrefl _ h

/-- Each field of the time of day counts the milliseconds that are left by those before it. -/
theorem clockNumbers_lt_iff (ha : a.IsPlain) (hb : b.IsPlain) :
    a.clockNumbers < b.clockNumbers ↔ a.milliOfDay < b.milliOfDay := by
  have hnanos : a.nanos < 1000000000 := ha.nanos_lt
  have hnanos' : b.nanos < 1000000000 := hb.nanos_lt
  have hhour (n : Nat) : n / 3600 = n / 60 / 60 := by omega
  simp only [clockNumbers, milliOfDay, List.cons_lt_cons_iff, List.lt_irrefl, and_false,
    or_false, hhour]
  omega

/-- Moments cut to the millisecond are ordered as their texts. -/
theorem millisText_lt_millisText_iff (ha : a.IsPlain) (hb : b.IsPlain) :
    a.millisText < b.millisText ↔ a.millis < b.millis := by
  have hlength : a.dateNumbers.length = b.dateNumbers.length := rfl
  have hdays : a.dateNumbers = b.dateNumbers ↔ a.seconds / 86400 = b.seconds / 86400 := by
    refine ⟨fun h => ?_, fun h => by rw [dateNumbers, date, h]; rfl⟩
    have hnot := mt (dateNumbers_lt_iff ha hb).mpr (h ▸ List.lt_irrefl _)
    have hnot' := mt (dateNumbers_lt_iff hb ha).mpr (h ▸ List.lt_irrefl _)
    exact Int.le_antisymm (Int.not_lt.mp hnot') (Int.not_lt.mp hnot)
  rw [String.lt_iff, toList_millisText ha, toList_millisText hb,
    Text.row_lt_row_iff (fits_numbers ha) (fits_numbers hb), Text.append_lt_append_iff hlength,
    dateNumbers_lt_iff ha hb, clockNumbers_lt_iff ha hb, millis_lt_millis_iff ha hb, hdays]

end Moment

/-! ### Points in time -/

/-- The moment that a point in time is made from; a text comes from none. -/
def Time.moment? : Time → Option Moment
  | .text _ => none
  | .zoned moment _ => some moment
  | .system seconds nanos => some (Moment.ofDuration seconds nanos)

namespace TypedText

theorem text_instant {t : Time} {m : Moment} (h : t.moment? = some m) :
    (instant t).text = m.millisText := by
  cases t with
  | text => nomatch h
  | zoned moment ahead => rw [← Option.some.inj h]; rfl
  | system seconds nanos => rw [← Option.some.inj h]; rfl

/-- Instants of times with years of four digits, leap seconds apart, are ordered as the times are
once these are cut to the millisecond. So one text stands for one millisecond, whatever zones the
times were given in. -/
theorem instants_ordered {s t : Time} {a b : Moment} (hs : s.moment? = some a)
    (ht : t.moment? = some b) (ha : a.IsPlain) (hb : b.IsPlain) :
    (Text.bytes (instant s).text ≤ Text.bytes (instant t).text ↔ a.millis ≤ b.millis) ∧
      ((instant s).text = (instant t).text ↔ a.millis = b.millis) := by
  have hle {s t : Time} {a b : Moment} (hs : s.moment? = some a) (ht : t.moment? = some b)
      (ha : a.IsPlain) (hb : b.IsPlain) :
      (instant s).text ≤ (instant t).text ↔ a.millis ≤ b.millis := by
    rw [text_instant hs, text_instant ht, ← String.not_lt, ← Int.not_lt,
      Moment.millisText_lt_millisText_iff hb ha]
  refine ⟨?_, fun h => ?_, fun h => ?_⟩
  · rw [← List.not_lt, Text.bytes_lt_bytes, String.not_lt, hle hs ht ha hb]
  · exact Int.le_antisymm ((hle hs ht ha hb).mp (h ▸ String.le_refl _))
      ((hle ht hs hb ha).mp (h ▸ String.le_refl _))
  · exact String.le_antisymm ((hle hs ht ha hb).mpr h.le) ((hle ht hs hb ha).mpr h.ge)

/-- Half a millisecond before 1970, told by the clock of the system, and a moment of the same
millisecond in a zone an hour ahead come before the beginning of 1970. -/
theorem instants_ordered_across_epoch :
    (instant (.system (-1) 999500000)).text = (instant (.zoned ⟨-1, 999000000⟩ 3600)).text ∧
      ¬ Text.bytes (instant (.zoned ⟨0, 0⟩ (-3600))).text ≤
        Text.bytes (instant (.system (-1) 999500000)).text := by
  have hbefore : (Moment.ofDuration (-1) 999500000).IsPlain := ⟨by decide, by decide, by decide⟩
  have hsame : (Moment.mk (-1) 999000000).IsPlain := ⟨by decide, by decide, by decide⟩
  have hepoch : (Moment.mk 0 0).IsPlain := ⟨by decide, by decide, by decide⟩
  refine ⟨(instants_ordered rfl rfl hbefore hsame).2.mpr (by decide), ?_⟩
  exact mt (instants_ordered rfl rfl hepoch hbefore).1.mp (by decide)

end TypedText

end DatalogClient
