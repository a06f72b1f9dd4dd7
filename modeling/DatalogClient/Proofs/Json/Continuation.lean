import DatalogClient.Proofs.Json.Nesting
import Mathlib.Data.List.TakeWhile

/-!
# Words, numbers and strings in longer texts

A reader looks no further than a word or a string goes, and one character further than a number. So
what it finds in a text it finds again if the text goes on, and what is left is what was left, and
more.

## Main definitions

* `Json.Extends` — a reader finds the same in a longer text

## Main results

* `Json.readWord_extends`, `Json.readString_extends` — words and strings
* `Json.readNumber_extends` — numbers, if what follows is what ends a value
-/

namespace DatalogClient

namespace Cursor

variable {c longer : Cursor} {more : List Char}

theorem rest_next_append (h : longer.rest = c.rest ++ more) (hne : c.rest ≠ []) :
    longer.next.rest = c.next.rest ++ more := by
  obtain ⟨ch, tail, hrest⟩ := List.exists_cons_of_ne_nil hne
  rw [hrest, List.cons_append] at h
  rw [rest_next hrest, rest_next h]

/-- White space ends at the same point if it ends before the text does. -/
theorem rest_skipBlank_append (h : longer.rest = c.rest ++ more) (hne : c.skipBlank.rest ≠ []) :
    longer.skipBlank.rest = c.skipBlank.rest ++ more := by
  obtain ⟨chars, place⟩ := c
  obtain ⟨all, place'⟩ := longer
  obtain rfl : all = chars ++ more := h
  induction chars generalizing place place' with
  | nil => exact absurd rfl hne
  | cons ch chars ih =>
    simp only [skipBlank, skipBlankFrom, List.cons_append] at hne ⊢
    split_ifs with hblank
    · rw [if_pos hblank] at hne
      exact ih (place.after ch) hne (place'.after ch)
    · rfl

/-- What follows white space is no white space. -/
theorem isJsonBlank_head_skipBlank {ch : Char} {tail : List Char}
    (h : c.skipBlank.rest = ch :: tail) : isJsonBlank ch = false := by
  obtain ⟨chars, place⟩ := c
  induction chars generalizing place with
  | nil => cases h
  | cons first chars ih =>
    simp only [skipBlank, skipBlankFrom] at h
    split_ifs at h with hblank
    · exact ih _ h
    · obtain ⟨rfl, -⟩ := List.cons.inj h
      exact Bool.not_eq_true _ ▸ hblank

/-- Nothing is left behind white space if there is nothing else. -/
theorem rest_skipBlank_eq_nil_iff :
    c.skipBlank.rest = [] ↔ ∀ ch ∈ c.rest, isJsonBlank ch = true := by
  obtain ⟨chars, place⟩ := c
  induction chars generalizing place with
  | nil => simp [skipBlank, skipBlankFrom]
  | cons first chars ih =>
    rw [List.forall_mem_cons, ← ih (place.after first)]
    by_cases hblank : isJsonBlank first = true <;> simp [skipBlank, skipBlankFrom, hblank]

theorem skipBlank_skipBlank (c : Cursor) : c.skipBlank.skipBlank = c.skipBlank := by
  cases h : c.skipBlank.rest with
  | nil =>
    generalize c.skipBlank = d at h ⊢
    obtain ⟨chars, place⟩ := d
    obtain rfl : chars = [] := h
    rfl
  | cons ch tail => exact skipBlank_eq_self h (isJsonBlank_head_skipBlank h)

end Cursor

namespace Json

variable {α : Type} {c longer : Cursor} {more : List Char}

/-- What is found in a text is found in the longer one, and there is more behind it. -/
def Extends (more : List Char) (scan longer : Scan α) : Prop :=
  ∀ a d, scan = .ok (a, d) → ∃ e, longer = .ok (a, e) ∧ e.rest = d.rest ++ more

/-! ### Words and strings -/

theorem readWord_extends {word : List Char} {d : Cursor} (h : longer.rest = c.rest ++ more)
    (hread : readWord word c = .ok d) :
    ∃ e, readWord word longer = .ok e ∧ e.rest = d.rest ++ more := by
  induction word generalizing c longer with
  | nil =>
    obtain rfl := Except.ok.inj hread
    exact ⟨longer, rfl, h⟩
  | cons letter word ih =>
    rw [readWord.eq_def] at hread
    cases hrest : c.rest with
    | nil => simp [hrest] at hread
    | cons ch tail =>
      simp only [hrest] at hread
      split_ifs at hread with hch
      obtain ⟨e, he, herest⟩ := ih (Cursor.rest_next_append h (by simp [hrest])) hread
      refine ⟨e, ?_, herest⟩
      rw [hrest, List.cons_append] at h
      simpa only [readWord, h, if_pos hch] using he

theorem readUnit_extends (h : longer.rest = c.rest ++ more) :
    Extends more (readUnit c) (readUnit longer) := by
  intro n d hread
  rw [readUnit.eq_def] at hread
  split at hread
  case h_1 w x y z tail hrest =>
    simp only [hrest, List.cons_append] at hread h
    split at hread
    · rename_i m hnumber
      obtain ⟨rfl, rfl⟩ := Prod.mk.inj (Except.ok.inj hread)
      refine ⟨longer.next.next.next.next, ?_, ?_⟩
      · simp only [readUnit, h, hnumber]
      · rw [Cursor.rest_next (Cursor.rest_next (Cursor.rest_next (Cursor.rest_next h))),
          Cursor.rest_next (Cursor.rest_next (Cursor.rest_next (Cursor.rest_next hrest)))]
    · cases hread
  case h_2 =>
    split_ifs at hread

theorem readLowSurrogate_extends (high : Nat) (h : longer.rest = c.rest ++ more) :
    Extends more (readLowSurrogate high c) (readLowSurrogate high longer) := by
  intro ch d hread
  rw [readLowSurrogate.eq_def] at hread
  split at hread
  case h_1 => cases hread
  case h_3 => cases hread
  case h_2 tail hrest =>
    have hnext := Cursor.rest_next_append h (by simp [hrest])
    rw [hrest, List.cons_append] at h
    split at hread
    case h_1 => cases hread
    case h_3 => cases hread
    case h_2 tail' hrest' =>
      have hafter := Cursor.rest_next_append hnext (by simp [hrest'])
      rw [hrest', List.cons_append] at hnext
      split at hread
      case h_1 => cases hread
      case h_2 low e hunit =>
        obtain ⟨e', he', herest⟩ := readUnit_extends hafter low e hunit
        split_ifs at hread with hlow
        obtain ⟨rfl, rfl⟩ := Prod.mk.inj (Except.ok.inj hread)
        refine ⟨e', ?_, herest⟩
        simp only [readLowSurrogate, h, hnext, he', if_pos hlow]

theorem readEscape_extends (h : longer.rest = c.rest ++ more) :
    Extends more (readEscape c) (readEscape longer) := by
  intro meant d hread
  rw [readEscape.eq_def] at hread
  cases hrest : c.rest with
  | nil => simp [hrest] at hread
  | cons ch tail =>
    have hafter := Cursor.rest_next_append h (by simp [hrest])
    rw [hrest, List.cons_append] at h
    simp only [hrest] at hread
    split_ifs at hread with hu
    · split at hread
      case h_1 => cases hread
      case h_2 n e hunit =>
        obtain ⟨e', he', herest⟩ := readUnit_extends hafter n e hunit
        split_ifs at hread with hlow hhigh
        · obtain ⟨e'', he'', hrest''⟩ := readLowSurrogate_extends n herest meant d hread
          exact ⟨e'', by simp only [readEscape, h, if_pos hu, he', hlow, hhigh, if_true,
            Bool.false_eq_true, if_false, he''], hrest''⟩
        · obtain ⟨rfl, rfl⟩ := Prod.mk.inj (Except.ok.inj hread)
          exact ⟨e', by simp only [readEscape, h, if_pos hu, he', hlow, hhigh, Bool.false_eq_true,
            if_false], herest⟩
    · split at hread
      case h_1 meant' hletter =>
        obtain ⟨rfl, rfl⟩ := Prod.mk.inj (Except.ok.inj hread)
        exact ⟨longer.next, by simp only [readEscape, h, if_neg hu, hletter], hafter⟩
      case h_2 => cases hread

/-- More characters than there are need not be allowed for. -/
theorem readStringFrom_extends {fuel fuel' : Nat} (hfuel : fuel ≤ fuel') (before : List Char)
    (h : longer.rest = c.rest ++ more) :
    Extends more (readStringFrom fuel before c) (readStringFrom fuel' before longer) := by
  intro s d hread
  induction fuel generalizing fuel' before c longer with
  | zero => cases hread
  | succ fuel ih =>
    obtain ⟨fuel', rfl⟩ := Nat.exists_eq_add_one_of_ne_zero (Nat.ne_zero_of_lt hfuel)
    have hle := Nat.le_of_succ_le_succ hfuel
    rw [readStringFrom.eq_def] at hread
    cases hrest : c.rest with
    | nil => simp [hrest] at hread
    | cons ch tail =>
      have hafter := Cursor.rest_next_append h (by simp [hrest])
      rw [hrest, List.cons_append] at h
      simp only [hrest] at hread
      split_ifs at hread with hquote hbackslash hcontrol
      · obtain ⟨rfl, rfl⟩ := Prod.mk.inj (Except.ok.inj hread)
        exact ⟨longer.next, by simp only [readStringFrom, h, if_pos hquote], hafter⟩
      · split at hread
        case h_1 => cases hread
        case h_2 meant e hescape =>
          obtain ⟨e', he', herest⟩ := readEscape_extends hafter meant e hescape
          obtain ⟨f, hf, hfrest⟩ := ih hle (meant :: before) herest hread
          exact ⟨f, by simp only [readStringFrom, h, if_neg hquote, if_pos hbackslash, he', hf],
            hfrest⟩
      · obtain ⟨f, hf, hfrest⟩ := ih hle (ch :: before) hafter hread
        exact ⟨f, by simp only [readStringFrom, h, if_neg hquote, if_neg hbackslash,
          if_neg hcontrol, hf], hfrest⟩

theorem readString_extends (h : longer.rest = c.rest ++ more) :
    Extends more (readString c) (readString longer) := by
  have hfuel : c.rest.length + 1 ≤ longer.rest.length + 1 := by
    rw [h, List.length_append]
    omega
  exact readStringFrom_extends hfuel [] h

/-! ### Numbers -/

/-- What ends a value does not go on with a number. -/
theorem EndsValue.not_isDigit (hmore : EndsValue more) : ∀ ch ∈ more.head?, ch.isDigit = false := by
  intro ch hch
  obtain rfl | rfl | rfl := hmore ch hch <;> rfl

theorem digits_extends (hmore : EndsValue more) (h : longer.rest = c.rest ++ more) :
    ∃ e, longer.digits = (c.digits.1, e) ∧ e.rest = c.digits.2.rest ++ more := by
  have hsplit : longer.rest =
      c.rest.takeWhile Char.isDigit ++ (c.rest.dropWhile Char.isDigit ++ more) := by
    rw [h, ← List.append_assoc, List.takeWhile_append_dropWhile]
  have hhead : ∀ ch ∈ (c.rest.dropWhile Char.isDigit ++ more).head?, ch.isDigit = false := by
    cases hrest : c.rest.dropWhile Char.isDigit with
    | nil => exact hmore.not_isDigit
    | cons ch tail =>
      rintro other ⟨⟩
      have hnot := List.head_dropWhile_not Char.isDigit (l := c.rest) (by simp [hrest])
      simpa [hrest] using hnot
  exact digits_append hsplit (fun ch hch => List.mem_takeWhile_imp hch) hhead

theorem floatAt_extends {negative : Bool} {significand : Nat} {exponent : Int}
    (h : longer.rest = c.rest ++ more) :
    Extends more (floatAt negative significand exponent c)
      (floatAt negative significand exponent longer) := by
  intro n d hread
  rw [floatAt] at hread ⊢
  split at hread
  · obtain ⟨rfl, rfl⟩ := Prod.mk.inj (Except.ok.inj hread)
    exact ⟨longer, rfl, h⟩
  · cases hread

theorem wholeAt_extends {negative : Bool} {n leftOut : Nat} (h : longer.rest = c.rest ++ more) :
    Extends more (wholeAt negative n leftOut c) (wholeAt negative n leftOut longer) := by
  intro m d hread
  rw [wholeAt] at hread ⊢
  split_ifs at hread ⊢
  · exact floatAt_extends h m d hread
  · exact floatAt_extends h m d hread
  · obtain ⟨rfl, rfl⟩ := Prod.mk.inj (Except.ok.inj hread)
    exact ⟨longer, rfl, h⟩
  · obtain ⟨rfl, rfl⟩ := Prod.mk.inj (Except.ok.inj hread)
    exact ⟨longer, rfl, h⟩

theorem readExponentDigits_extends {negative : Bool} {significand : Nat} {exponent sign : Int}
    (hmore : EndsValue more) (h : longer.rest = c.rest ++ more) :
    Extends more (readExponentDigits negative significand exponent sign c)
      (readExponentDigits negative significand exponent sign longer) := by
  intro n d hread
  rw [readExponentDigits.eq_def] at hread
  cases hrest : c.rest with
  | nil => simp [hrest] at hread
  | cons ch tail =>
    obtain ⟨e, he, herest⟩ := digits_extends hmore h
    rw [hrest, List.cons_append] at h
    simp only [hrest] at hread
    by_cases hdigit : (!ch.isDigit) = true
    · rw [if_pos hdigit] at hread
      cases hread
    · rw [if_neg hdigit] at hread
      cases hover : exponentOverflow? 0 0 c.digits.1 with
      | none =>
        simp only [hover] at hread
        obtain ⟨f, hf, hfrest⟩ := floatAt_extends herest n d hread
        exact ⟨f, by simp only [readExponentDigits, h, if_neg hdigit, he, hover, hf], hfrest⟩
      | some count =>
        simp only [hover] at hread
        split_ifs at hread with hzero
        obtain ⟨f, hf, hfrest⟩ := floatAt_extends herest n d hread
        exact ⟨f, by simp only [readExponentDigits, h, if_neg hdigit, he, hover, if_pos hzero, hf],
          hfrest⟩

/-- What ends a value is no exponent. -/
theorem readExponent_of_endsValue {negative : Bool} {significand : Nat} {exponent : Int}
    (h : EndsValue c.rest) :
    readExponent negative significand exponent c = floatAt negative significand exponent c := by
  rw [readExponent.eq_def]
  cases hrest : c.rest with
  | nil => rfl
  | cons ch tail =>
    rw [hrest] at h
    obtain rfl | rfl | rfl := h ch rfl <;> rfl

/-- The sign of an exponent, if it has one, and where the digits begin. -/
def signAt (c : Cursor) : Int × Cursor :=
  if c.rest.head? = some '+' then (1, c.next)
  else if c.rest.head? = some '-' then (-1, c.next)
  else (1, c)

theorem readExponent_eq_signAt {negative : Bool} {significand : Nat} {exponent : Int} {ch : Char}
    {tail : List Char} (hrest : c.rest = ch :: tail) (hexponent : (ch = 'e' || ch = 'E') = true) :
    readExponent negative significand exponent c =
      readExponentDigits negative significand exponent (signAt c.next).1 (signAt c.next).2 := by
  rw [readExponent.eq_def]
  simp only [hrest, if_pos hexponent]
  split
  next hsign => simp [signAt, hsign]
  next hsign => simp [signAt, hsign]
  next hplus hminus =>
    have hhead : ∀ sign, c.next.rest.head? = some sign → sign ≠ '+' ∧ sign ≠ '-' := by
      intro sign hhead
      obtain ⟨tail', htail⟩ := List.head?_eq_some_iff.mp hhead
      refine ⟨?_, ?_⟩
      · rintro rfl
        exact hplus tail' htail
      · rintro rfl
        exact hminus tail' htail
    rw [signAt, if_neg fun h => (hhead _ h).1 rfl, if_neg fun h => (hhead _ h).2 rfl]

/-- The sign is the same in a longer text. -/
theorem signAt_append (h : longer.rest = c.rest ++ more) (hne : c.rest ≠ []) :
    (signAt longer).1 = (signAt c).1 ∧ (signAt longer).2.rest = (signAt c).2.rest ++ more := by
  have hafter := Cursor.rest_next_append h hne
  have hhead : longer.rest.head? = c.rest.head? := by
    rw [h, List.head?_append_of_ne_nil _ hne]
  rw [signAt, signAt, hhead]
  split_ifs
  · exact ⟨rfl, hafter⟩
  · exact ⟨rfl, hafter⟩
  · exact ⟨rfl, h⟩

theorem readExponent_extends {negative : Bool} {significand : Nat} {exponent : Int}
    (hmore : EndsValue more) (h : longer.rest = c.rest ++ more) :
    Extends more (readExponent negative significand exponent c)
      (readExponent negative significand exponent longer) := by
  intro n d hread
  cases hrest : c.rest with
  | nil =>
    -- The text goes on with what ends a value.
    rw [readExponent_of_endsValue (by rw [hrest]; exact endsValue_nil)] at hread
    rw [readExponent_of_endsValue (by rwa [h, hrest, List.nil_append])]
    exact floatAt_extends h n d hread
  | cons ch tail =>
    have hlonger := h
    rw [hrest, List.cons_append] at hlonger
    by_cases hexponent : (ch = 'e' || ch = 'E') = true
    · have hafter := Cursor.rest_next_append h (by simp [hrest])
      rw [readExponent_eq_signAt hrest hexponent] at hread
      rw [readExponent_eq_signAt hlonger hexponent]
      by_cases hnext : c.next.rest = []
      · simp [signAt, hnext, readExponentDigits] at hread
      · obtain ⟨hsign, hdigits⟩ := signAt_append hafter hnext
        rw [hsign]
        exact readExponentDigits_extends hmore hdigits n d hread
    · rw [readExponent, hrest] at hread
      rw [readExponent, hlonger]
      simp only [if_neg hexponent] at hread ⊢
      exact floatAt_extends h n d hread

/-- What ends a value does not go on with the fraction of a number. -/
theorem readFraction_extends {negative : Bool} {n leftOut : Nat} (hmore : EndsValue more)
    (h : longer.rest = c.rest ++ more) :
    Extends more (readFraction negative n leftOut c) (readFraction negative n leftOut longer) := by
  intro m d hread
  cases hrest : c.rest with
  | nil =>
    rw [readFraction_eq_wholeAt negative n leftOut (by rw [hrest]; exact endsValue_nil)] at hread
    rw [readFraction_eq_wholeAt negative n leftOut (by rwa [h, hrest, List.nil_append])]
    exact wholeAt_extends h m d hread
  | cons ch tail =>
    have hafter := Cursor.rest_next_append h (by simp [hrest])
    have hlonger := h
    rw [hrest, List.cons_append] at hlonger
    by_cases hpoint : ch = '.'
    · subst hpoint
      obtain ⟨e, he, herest⟩ := digits_extends hmore hafter
      rw [readFraction, hrest] at hread
      rw [readFraction, hlonger]
      simp only [he] at hread ⊢
      split_ifs at hread ⊢
      exact readExponent_extends hmore herest m d hread
    · rw [readFraction.eq_def] at hread ⊢
      simp only [hrest, hlonger] at hread ⊢
      split_ifs at hread ⊢
      · exact readExponent_extends hmore h m d hread
      · exact wholeAt_extends h m d hread

/-- A zero that no digit follows is the whole part of a number. -/
theorem readNumber_zero {negative : Bool} {tail : List Char} (h : c.rest = '0' :: tail)
    (hdigit : ∀ ch ∈ c.next.rest.head?, ch.isDigit = false) :
    readNumber negative c = readFraction negative 0 0 c.next := by
  rw [readNumber.eq_def]
  simp only [h, if_true]
  cases hnext : c.next.rest with
  | nil => rfl
  | cons ch rest =>
    rw [hnext] at hdigit
    simp only [hdigit ch rfl, Bool.false_eq_true, if_false]

theorem readNumber_extends {negative : Bool} (hmore : EndsValue more)
    (h : longer.rest = c.rest ++ more) :
    Extends more (readNumber negative c) (readNumber negative longer) := by
  intro n d hread
  cases hrest : c.rest with
  | nil => simp [readNumber, hrest] at hread
  | cons ch tail =>
    have hafter := Cursor.rest_next_append h (by simp [hrest])
    obtain ⟨e, he, herest⟩ := digits_extends hmore h
    rw [hrest, List.cons_append] at h
    by_cases hzero : ch = '0'
    · subst hzero
      have hdigit : ∀ ch ∈ c.next.rest.head?, ch.isDigit = false := by
        cases hnext : c.next.rest with
        | nil => simp
        | cons ch rest =>
          rintro other ⟨⟩
          by_contra hdigit
          rw [Bool.not_eq_false] at hdigit
          simp [readNumber, hrest, hnext, hdigit] at hread
      have hdigit' : ∀ ch ∈ longer.next.rest.head?, ch.isDigit = false := by
        rw [hafter]
        cases hnext : c.next.rest with
        | nil => exact hmore.not_isDigit
        | cons ch rest =>
          rintro other ⟨⟩
          exact hdigit ch (by rw [hnext]; rfl)
      rw [readNumber_zero hrest hdigit] at hread
      rw [readNumber_zero h hdigit']
      exact readFraction_extends hmore hafter n d hread
    · rw [readNumber.eq_def] at hread
      simp only [hrest, if_neg hzero] at hread
      split_ifs at hread with hdigit
      obtain ⟨f, hf, hfrest⟩ := readFraction_extends hmore herest n d hread
      exact ⟨f, by simp only [readNumber, h, if_neg hzero, if_pos hdigit, he, hf], hfrest⟩

end Json

end DatalogClient
