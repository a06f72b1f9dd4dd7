import Mathlib.Data.List.Basic

/-!
# The order of texts

Texts are ordered by their characters. UTF-8 keeps that order: of two characters the one with the
greater number has the greater bytes, whatever stands after them.

## Main definitions

* `Text.bytes` — the bytes of a text

## Main results

* `Text.utf8EncodeChar_append_lt` — the order of two characters is that of their bytes
* `Text.bytes_lt_bytes` — the order of two texts is that of their bytes
-/

namespace DatalogClient.Text

/-- The bytes of a text in UTF-8. -/
def bytes (text : String) : List UInt8 := text.toByteArray.data.toList

theorem bytes_eq (text : String) : bytes text = text.toList.flatMap String.utf8EncodeChar := by
  rw [bytes, ← String.utf8Encode_toList, List.utf8Encode, List.data_toByteArray]

/-- The order of two characters is that of their bytes, whatever stands after them. -/
theorem utf8EncodeChar_append_lt {c d : Char} (h : c < d) (l m : List UInt8) :
    String.utf8EncodeChar c ++ l < String.utf8EncodeChar d ++ m := by
  have hcd : c.val.toNat < d.val.toNat := h
  have hd : d.val.toNat < 1114112 := by
    have hvalid := d.valid
    simp only [UInt32.isValidChar, Nat.isValidChar] at hvalid
    omega
  have h₂ (n : Nat) : n / 4096 = n / 64 / 64 := by omega
  have h₃ (n : Nat) : n / 262144 = n / 64 / 64 / 64 := by omega
  simp only [String.utf8EncodeChar, h₂, h₃]
  -- A character of more bytes has the greater first byte. Of two characters with as many bytes the
  -- digits of the numbers, to the base 64, are compared from the first to the last.
  repeat' split
  all_goals
    simp only [List.cons_append, List.nil_append, List.cons_lt_cons_iff, UInt8.lt_iff_toNat_lt,
      ← UInt8.toNat_inj, UInt8.toNat_ofNat']
    omega

theorem flatMap_utf8EncodeChar_lt {l m : List Char} (h : l < m) :
    l.flatMap String.utf8EncodeChar < m.flatMap String.utf8EncodeChar := by
  induction h with
  | @nil d m =>
    have hne : (d :: m).flatMap String.utf8EncodeChar ≠ [] := by simp
    obtain ⟨byte, rest, heq⟩ := List.exists_cons_of_ne_nil hne
    rw [List.flatMap_nil, heq]
    exact List.nil_lt_cons byte rest
  | rel hcd =>
    rw [List.flatMap_cons, List.flatMap_cons]
    exact utf8EncodeChar_append_lt hcd _ _
  | cons _ ih =>
    rw [List.flatMap_cons, List.flatMap_cons]
    exact List.append_left_lt ih

theorem bytes_lt_of_lt {a b : String} (h : a < b) : bytes a < bytes b := by
  rw [bytes_eq, bytes_eq]
  exact flatMap_utf8EncodeChar_lt (String.lt_iff.mp h)

/-- The order of two texts is that of their bytes. -/
theorem bytes_lt_bytes {a b : String} : bytes a < bytes b ↔ a < b := by
  -- Of two texts one comes first, and the bytes have to agree.
  refine ⟨fun h => Decidable.byContradiction fun hab => ?_, bytes_lt_of_lt⟩
  rcases eq_or_ne a b with rfl | hne
  · exact List.lt_irrefl _ h
  · have hba : b < a := Std.lt_of_le_of_ne (String.not_lt.mp hab) hne.symm
    exact List.lt_asymm h (bytes_lt_of_lt hba)

end DatalogClient.Text
