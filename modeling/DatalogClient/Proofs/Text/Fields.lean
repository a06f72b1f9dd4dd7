import DatalogClient.Calendar.Moment
import Mathlib.Algebra.Group.Nat.Defs
import Mathlib.Data.Char
import Mathlib.Data.List.Forall2
import Mathlib.Data.List.Lex
import Mathlib.Data.Set.Function

/-!
# Texts of numbers of fixed width

Numbers that are padded to one width are ordered as their texts are, and so are rows of such
numbers if they have one layout: the first field in which two rows differ decides.

## Main definitions

* `Text.row` — numbers in the fields of a layout

## Main results

* `Text.strictMonoOn_padded` — numbers of one width are ordered as their texts
* `Text.row_lt_row_iff` — rows of one layout are ordered as their texts
-/

namespace DatalogClient.Text

/-- Where two lists begin by parts of one length, the parts decide first. -/
theorem append_lt_append_iff {α : Type} [LinearOrder α] {a b x y : List α}
    (h : a.length = b.length) : a ++ x < b ++ y ↔ a < b ∨ a = b ∧ x < y := by
  induction a generalizing b with
  | nil =>
    obtain rfl := List.length_eq_zero_iff.mp h.symm
    simp
  | cons c a ih =>
    obtain ⟨d, b, rfl⟩ := List.exists_cons_of_length_eq_add_one h.symm
    have hlength : a.length = b.length := Nat.succ.inj h
    simp only [List.cons_append, List.cons_lt_cons_iff, ih hlength, List.cons.injEq]
    grind

/-! ### Numbers -/

theorem digitsOf_eq (n : Nat) : Decimal.digitsOf n = Nat.toDigits 10 n := Nat.toList_repr

theorem padded_one {n : Nat} (h : n < 10) : padded 1 n = [Nat.digitChar n] := by
  rw [padded, digitsOf_eq, Nat.toDigits_of_lt_base h]
  rfl

/-- The last of several places holds the last digit. -/
theorem padded_succ (width n : Nat) :
    padded (width + 2) n = padded (width + 1) (n / 10) ++ [Nat.digitChar (n % 10)] := by
  simp only [padded, digitsOf_eq]
  by_cases hn : n < 10
  · rw [Nat.toDigits_of_lt_base hn, Nat.div_eq_of_lt hn, Nat.mod_eq_of_lt hn,
      Nat.toDigits_of_lt_base (by decide : 0 < 10)]
    have hzeros : List.replicate (width + 1) '0' = List.replicate width '0' ++ ['0'] :=
      List.replicate_succ'
    exact congrArg (· ++ [Nat.digitChar n]) hzeros
  · have hlength : width + 2 - ((Nat.toDigits 10 (n / 10)).length + 1) =
        width + 1 - (Nat.toDigits 10 (n / 10)).length := by omega
    rw [Nat.toDigits_of_base_le (by decide) (Nat.not_lt.mp hn), List.length_append,
      List.length_singleton, hlength, List.append_assoc]

theorem length_padded {width n : Nat} (h : n < 10 ^ (width + 1)) :
    (padded (width + 1) n).length = width + 1 := by
  induction width generalizing n with
  | zero => rw [padded_one h, List.length_singleton]
  | succ width ih =>
    have hdiv : n / 10 < 10 ^ (width + 1) := Nat.div_lt_of_lt_mul (by rwa [← Nat.pow_succ'])
    rw [padded_succ, List.length_append, ih hdiv, List.length_singleton]

theorem digitChar_lt_digitChar {m n : Nat} (h : m < n) (hn : n < 10) :
    Nat.digitChar m < Nat.digitChar n := by
  have hdigits : ∀ a b : Fin 10, a < b → Nat.digitChar a < Nat.digitChar b := by decide
  exact hdigits ⟨m, h.trans hn⟩ ⟨n, hn⟩ h

/-- Numbers of one width are ordered as their texts. -/
theorem strictMonoOn_padded (width : Nat) :
    StrictMonoOn (padded (width + 1)) {n | n < 10 ^ (width + 1)} := by
  induction width with
  | zero =>
    intro m hm n hn hlt
    rw [padded_one hm, padded_one hn, List.cons_lt_cons_iff]
    exact .inl (digitChar_lt_digitChar hlt hn)
  | succ width ih =>
    intro m hm n hn hlt
    have hm' : m / 10 < 10 ^ (width + 1) := Nat.div_lt_of_lt_mul (by rwa [← Nat.pow_succ'])
    have hn' : n / 10 < 10 ^ (width + 1) := Nat.div_lt_of_lt_mul (by rwa [← Nat.pow_succ'])
    rw [padded_succ, padded_succ,
      append_lt_append_iff ((length_padded hm').trans (length_padded hn').symm)]
    -- Either the numbers differ before the last digit, or it decides.
    rcases Nat.lt_or_eq_of_le (Nat.div_le_div_right (c := 10) hlt.le) with hdiv | hdiv
    · exact .inl (ih hm' hn' hdiv)
    · have hmod : m % 10 < n % 10 := by omega
      refine .inr ⟨by rw [hdiv], List.cons_lt_cons_iff.mpr (.inl ?_)⟩
      exact digitChar_lt_digitChar hmod (Nat.mod_lt n (by decide))

/-! ### Rows of numbers -/

/-- Numbers in the fields of a layout, which tells the width of each field, less one, and the
character behind it. -/
def row : List (Nat × Char) → List Nat → List Char
  | (width, mark) :: layout, n :: rest => padded (width + 1) n ++ mark :: row layout rest
  | _, _ => []

/-- The numbers fit into the fields of the layout. -/
def Fits (layout : List (Nat × Char)) (numbers : List Nat) : Prop :=
  List.Forall₂ (fun field n => n < 10 ^ (field.1 + 1)) layout numbers

/-- Rows of one layout are ordered as their texts. -/
theorem row_lt_row_iff {layout : List (Nat × Char)} {a b : List Nat} (ha : Fits layout a)
    (hb : Fits layout b) : row layout a < row layout b ↔ a < b := by
  induction layout generalizing a b with
  | nil =>
    cases ha
    cases hb
    simp [row]
  | cons field layout ih =>
    obtain ⟨m, a, hm, hrest, rfl⟩ := List.forall₂_cons_left_iff.mp ha
    obtain ⟨n, b, hn, hrest', rfl⟩ := List.forall₂_cons_left_iff.mp hb
    have hmono := strictMonoOn_padded field.1
    rw [row, row, append_lt_append_iff ((length_padded hm).trans (length_padded hn).symm),
      hmono.lt_iff_lt hm hn, hmono.injOn.eq_iff hm hn, List.cons_lt_cons_iff,
      List.cons_lt_cons_iff, ih hrest hrest']
    simp

end DatalogClient.Text
