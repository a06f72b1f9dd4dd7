import DatalogClient.Json.Lexeme
import DatalogClient.Json.Printer
import Mathlib.Tactic.SplitIfs

/-!
# Words, numbers and strings that are read back

What is written of a scalar is read as that scalar, whatever follows it in the text; only after a
number must come something that does not go on with it. Inside a text a comma or the end of a
container follows a value, and at its end nothing.

Floating-point numbers are left out: their texts are the shortest that are read back, which is not
a matter of how texts are read.

## Main definitions

* `Json.EndsValue` — what may follow a value in a text
* `Json.IsWhole` — the integers that are read as integers

## Main results

* `Json.readWord_append` — words are read back
* `Json.readNumber_ofNat`, `Json.readNumber_negSucc` — integers are read back
* `Json.readString_append` — strings are read back
-/

namespace DatalogClient

theorem Cursor.rest_next {c : Cursor} {ch : Char} {rest : List Char} (h : c.rest = ch :: rest) :
    c.next.rest = rest := by
  rw [next, h]

namespace Json

variable {c : Cursor} {rest : List Char}

/-- Nothing follows, or a comma, or the end of a container. -/
def EndsValue (rest : List Char) : Prop := ∀ ch ∈ rest.head?, ch = ',' ∨ ch = ']' ∨ ch = '\x7d'

theorem endsValue_nil : EndsValue [] := by simp [EndsValue]

/-- The letters of a word are read. -/
theorem readWord_append (word : List Char) (h : c.rest = word ++ rest) :
    ∃ d, readWord word c = .ok d ∧ d.rest = rest := by
  induction word generalizing c with
  | nil => exact ⟨c, rfl, h⟩
  | cons letter word ih =>
    obtain ⟨d, hd, hrest⟩ := ih (Cursor.rest_next h)
    exact ⟨d, by simpa [readWord, h] using hd, hrest⟩

/-! ### Integers -/

/-- The integer has a form that is read as an integer. -/
def IsWhole (n : Int) : Prop := -9223372036854775808 ≤ n ∧ n < 18446744073709551616

theorem natOfDigits_toDigits (n : Nat) : natOfDigits (Nat.toDigits 10 n) = n :=
  Nat.ofDigitChars_ten_toDigits

theorem isDigit_of_mem_toDigits {n : Nat} {ch : Char} (h : ch ∈ Nat.toDigits 10 n) :
    ch.isDigit = true :=
  Nat.isDigit_of_mem_toDigits (by decide) (by decide) h

/-- A number other than zero does not begin with a zero. -/
theorem exists_toDigits_eq_cons {n : Nat} (hn : 0 < n) :
    ∃ ch digits, Nat.toDigits 10 n = ch :: digits ∧ ch ≠ '0' := by
  induction n using Nat.strongRecOn with
  | ind n ih =>
    by_cases hlt : n < 10
    · rw [Nat.toDigits_of_lt_base hlt]
      have hdigit : ∀ k : Fin 10, 0 < k.val → Nat.digitChar k ≠ '0' := by decide
      exact ⟨_, [], rfl, hdigit ⟨n, hlt⟩ hn⟩
    · -- The last digit is written after those of the tenth part.
      obtain ⟨ch, digits, hdigits, hch⟩ := ih (n / 10) (by omega) (by omega)
      rw [Nat.toDigits_of_base_le (by decide) (by omega), hdigits]
      exact ⟨ch, _, rfl, hch⟩

/-- Digits are taken as far as they go. -/
theorem digits_append {digits : List Char} (h : c.rest = digits ++ rest)
    (hdigits : ∀ ch ∈ digits, ch.isDigit = true)
    (hrest : ∀ ch ∈ rest.head?, ch.isDigit = false) :
    ∃ d, c.digits = (digits, d) ∧ d.rest = rest := by
  have hnone : rest.takeWhile Char.isDigit = [] ∧ rest.dropWhile Char.isDigit = rest := by
    cases rest with
    | nil => exact ⟨rfl, rfl⟩
    | cons ch tail => simp [hrest ch rfl]
  have htake : c.rest.takeWhile Char.isDigit = digits := by
    rw [h, List.takeWhile_append_of_pos hdigits, hnone.1, List.append_nil]
  refine ⟨_, by rw [Cursor.digits, htake], ?_⟩
  rw [h, List.dropWhile_append_of_pos hdigits, hnone.2]

theorem le_withDigit (n : Nat) (digit : Char) : n ≤ withDigit n digit := by
  rw [withDigit]
  omega

/-- More digits do not make a number smaller. -/
theorem le_foldl_withDigit (n : Nat) (digits : List Char) : n ≤ digits.foldl withDigit n := by
  induction digits generalizing n with
  | nil => exact Nat.le_refl n
  | cons digit rest ih => exact Nat.le_trans (le_withDigit n digit) (ih _)

/-- Digits are all taken if a word holds the number that they make. -/
theorem takeDigits_eq {n : Nat} {digits : List Char}
    (h : digits.foldl withDigit n < UInt64.size) :
    takeDigits n digits = (digits.foldl withDigit n, 0) := by
  induction digits generalizing n with
  | nil => rfl
  | cons digit rest ih =>
    rw [List.foldl_cons] at h ⊢
    have hfits := Nat.lt_of_le_of_lt (le_foldl_withDigit (withDigit n digit) rest) h
    rw [takeDigits, if_pos hfits, ih h]

theorem takeDigits_toDigits {n : Nat} (h : n < UInt64.size) :
    takeDigits 0 (Nat.toDigits 10 n) = (n, 0) := by
  have hvalue : (Nat.toDigits 10 n).foldl withDigit 0 = n := natOfDigits_toDigits n
  rw [takeDigits_eq (by rwa [hvalue]), hvalue]

/-- After its digits a number that ends has been read. -/
theorem readFraction_eq_wholeAt (negative : Bool) (n leftOut : Nat) (h : EndsValue c.rest) :
    readFraction negative n leftOut c = wholeAt negative n leftOut c := by
  rw [readFraction.eq_def]
  split
  · rename_i heq
    have hpoint := h '.' (by rw [heq]; rfl)
    simp at hpoint
  · rename_i ch _ _ heq
    obtain rfl | rfl | rfl := h ch (by rw [heq]; rfl) <;> rfl
  · rfl

/-- The digits of a number that a word holds are read, all of them. -/
theorem readNumber_append {n : Nat} (negative : Bool) (hsize : n < UInt64.size)
    (h : c.rest = Nat.toDigits 10 n ++ rest) (hrest : EndsValue rest) :
    ∃ d, readNumber negative c = wholeAt negative n 0 d ∧ d.rest = rest := by
  have hnodigit : ∀ ch ∈ rest.head?, ch.isDigit = false := by
    intro ch hch
    obtain rfl | rfl | rfl := hrest ch hch <;> rfl
  by_cases hn : n = 0
  · subst hn
    -- A zero stands alone, so what follows it is looked at first.
    have hzero : c.rest = '0' :: rest := h
    have hnext := Cursor.rest_next hzero
    refine ⟨c.next, ?_, hnext⟩
    have hfraction := readFraction_eq_wholeAt negative 0 0 (hnext ▸ hrest)
    rw [readNumber, hzero]
    simp only [if_true, hnext]
    cases rest with
    | nil => exact hfraction
    | cons ch tail =>
      simp only [hnodigit ch rfl, Bool.false_eq_true, if_false]
      exact hfraction
  · obtain ⟨ch, digits, hdigits, hch⟩ := exists_toDigits_eq_cons (Nat.pos_of_ne_zero hn)
    obtain ⟨d, hd, hdrest⟩ := digits_append h (fun ch => isDigit_of_mem_toDigits) hnodigit
    refine ⟨d, ?_, hdrest⟩
    have hdigit : ch.isDigit = true := isDigit_of_mem_toDigits (hdigits ▸ List.mem_cons_self)
    rw [hdigits, List.cons_append] at h
    simp only [readNumber, h, hch, if_false, hdigit, if_true, hd, takeDigits_toDigits hsize]
    exact readFraction_eq_wholeAt negative n 0 (hdrest ▸ hrest)

theorem readNumber_ofNat {n : Nat} (hn : IsWhole n) (h : c.rest = Nat.toDigits 10 n ++ rest)
    (hrest : EndsValue rest) :
    ∃ d, readNumber false c = .ok (.int n, d) ∧ d.rest = rest := by
  have hsize : n < UInt64.size := by
    have hupper := hn.2
    rw [UInt64.size]
    omega
  obtain ⟨d, hd, hdrest⟩ := readNumber_append false hsize h hrest
  exact ⟨d, by simp [hd, wholeAt], hdrest⟩

theorem readNumber_negSucc {n : Nat} (hn : IsWhole (.negSucc n))
    (h : c.rest = Nat.toDigits 10 (n + 1) ++ rest) (hrest : EndsValue rest) :
    ∃ d, readNumber true c = .ok (.int (.negSucc n), d) ∧ d.rest = rest := by
  have hleast : ¬ 9223372036854775808 < n + 1 := by
    have hlower := hn.1
    omega
  have hsize : n + 1 < UInt64.size := by
    rw [UInt64.size]
    omega
  obtain ⟨d, hd, hdrest⟩ := readNumber_append true hsize h hrest
  have hvalue : -((n + 1 : Nat) : Int) = Int.negSucc n := rfl
  exact ⟨d, by simp only [hd, wholeAt, ne_eq, not_true_eq_false, if_true, Nat.succ_ne_zero, hleast,
    decide_false, Bool.or_self, Bool.false_eq_true, if_false, hvalue], hdrest⟩

theorem toList_toString_ofNat (n : Nat) : (toString (n : Int)).toList = Nat.toDigits 10 n :=
  Nat.toList_repr

theorem toList_toString_negSucc (n : Nat) :
    (toString (Int.negSucc n)).toList = '-' :: Nat.toDigits 10 (n + 1) := by
  have h : toString (Int.negSucc n) = "-" ++ (n + 1).repr := rfl
  rw [h, String.toList_append, Nat.toList_repr]
  rfl

/-! ### Strings -/

/-- Four hexadecimal digits of which two are zeros stand for the number of the other two. -/
theorem readUnit_append {high low : Nat} (hhigh : high < 16) (hlow : low < 16)
    (h : c.rest = '0' :: '0' :: Text.hexDigit high :: Text.hexDigit low :: rest) :
    ∃ d, readUnit c = .ok (16 * high + low, d) ∧ d.rest = rest := by
  have hzero : Text.hexValue? '0' = some 0 := by decide
  have hnumber : Text.hexNumber? ['0', '0', Text.hexDigit high, Text.hexDigit low] =
      some (16 * high + low) := by
    simp [Text.hexNumber?, hzero, Text.hexValue?_hexDigit high hhigh,
      Text.hexValue?_hexDigit low hlow]
  refine ⟨c.next.next.next.next, by simp only [readUnit, h, hnumber], ?_⟩
  exact Cursor.rest_next (Cursor.rest_next (Cursor.rest_next (Cursor.rest_next h)))

/-- What is written of a character is read as that character. -/
theorem readStringFrom_escapeChar (fuel : Nat) (before : List Char) {ch : Char}
    (h : c.rest = escapeChar ch ++ rest) :
    ∃ d, readStringFrom (fuel + 1) before c = readStringFrom fuel (ch :: before) d ∧
      d.rest = rest := by
  -- After a backslash a letter stands for the character.
  have hletter : ∀ letter, c.rest = '\\' :: letter :: rest → letter ≠ 'u' →
      escapeLetter? letter = some ch →
      ∃ d, readStringFrom (fuel + 1) before c = readStringFrom fuel (ch :: before) d ∧
        d.rest = rest := by
    intro letter hrest hu hmeant
    have hnext := Cursor.rest_next hrest
    refine ⟨c.next.next, ?_, Cursor.rest_next hnext⟩
    simp [readStringFrom, hrest, readEscape, hnext, hu, hmeant]
  rw [escapeChar] at h
  split_ifs at h with hquote hbackslash hb ht hn hf hr hcontrol
  · exact hletter _ h (by decide) (by rw [hquote]; rfl)
  · exact hletter _ h (by decide) (by rw [hbackslash]; rfl)
  · exact hletter _ h (by decide) (by rw [hb]; rfl)
  · exact hletter _ h (by decide) (by rw [ht]; rfl)
  · exact hletter _ h (by decide) (by rw [hn]; rfl)
  · exact hletter _ h (by decide) (by rw [hf]; rfl)
  · exact hletter _ h (by decide) (by rw [hr]; rfl)
  · -- The remaining control characters are written by their numbers.
    have hnext := Cursor.rest_next h
    obtain ⟨d, hd, hdrest⟩ := readUnit_append (c := c.next.next) (by omega) (by omega)
      (Cursor.rest_next hnext)
    refine ⟨d, ?_, hdrest⟩
    have hnumber : 16 * (ch.toNat / 16) + ch.toNat % 16 = ch.toNat := by omega
    have hlow : ¬ 0xDC00 ≤ ch.toNat := by omega
    have hhigh : ¬ 0xD800 ≤ ch.toNat := by omega
    rw [hnumber] at hd
    simp [readStringFrom, h, readEscape, hnext, hd, hlow, hhigh, Char.ofNat_toNat]
  · refine ⟨c.next, ?_, Cursor.rest_next h⟩
    rw [List.singleton_append] at h
    simp [readStringFrom, h, hquote, hbackslash, hcontrol]

/-- No character is written as nothing. -/
theorem length_le_length_flatMap (chars : List Char) :
    chars.length ≤ (chars.flatMap escapeChar).length := by
  induction chars with
  | nil => exact Nat.zero_le _
  | cons ch chars ih =>
    have hch : 0 < (escapeChar ch).length := by
      rw [escapeChar]
      split_ifs <;> exact Nat.zero_lt_succ _
    rw [List.flatMap_cons, List.length_append, List.length_cons]
    omega

/-- What is written of several characters, up to the quote after them, is read as these. -/
theorem readStringFrom_flatMap {fuel : Nat} {chars : List Char} (hfuel : chars.length < fuel)
    (before : List Char) (h : c.rest = chars.flatMap escapeChar ++ '"' :: rest) :
    ∃ d, readStringFrom fuel before c = .ok (String.ofList (before.reverse ++ chars), d) ∧
      d.rest = rest := by
  obtain ⟨fuel, rfl⟩ : ∃ k, fuel = k + 1 := ⟨fuel - 1, by omega⟩
  induction chars generalizing fuel before c with
  | nil => exact ⟨c.next, by simp [readStringFrom, show c.rest = '"' :: rest from h],
      Cursor.rest_next h⟩
  | cons ch chars ih =>
    rw [List.length_cons] at hfuel
    obtain ⟨fuel, rfl⟩ : ∃ k, fuel = k + 1 := ⟨fuel - 1, by omega⟩
    rw [List.flatMap_cons, List.append_assoc] at h
    obtain ⟨d, hd, hdrest⟩ := readStringFrom_escapeChar (fuel + 1) before h
    obtain ⟨e, he, herest⟩ := ih (ch :: before) hdrest fuel (by omega)
    refine ⟨e, ?_, herest⟩
    rw [hd, he, List.reverse_cons, List.append_assoc, List.singleton_append]

/-- What is written of a string is read back, from its opening quote on. -/
theorem readString_append {s : String} (h : c.rest = stringChars s ++ rest) :
    ∃ d, readString c.next = .ok (s, d) ∧ d.rest = rest := by
  have hnext : c.next.rest = s.toList.flatMap escapeChar ++ '"' :: rest := by
    rw [stringChars, List.cons_append, List.cons_append, List.append_assoc] at h
    exact Cursor.rest_next h
  have hfuel : s.toList.length < c.next.rest.length + 1 := by
    have hlength := length_le_length_flatMap s.toList
    rw [hnext, List.length_append]
    omega
  obtain ⟨d, hd, hdrest⟩ := readStringFrom_flatMap hfuel [] hnext
  exact ⟨d, by simpa [readString] using hd, hdrest⟩

end Json

end DatalogClient
