import Mathlib.Tactic.NormNum

/-!
# Machine words as numbers

An unsigned word of 64 bits lies far below the greatest floating-point number, so the number
nearest to it is finite. A word that fits a signed one is the same integer there.

## Main results

* `isFinite_toFloat` — the floating-point number of an unsigned word is finite
* `exists_toNat_eq` — the numbers of unsigned words
* `toUInt64_ofInt_toNat`, `toNat_toUInt64_le` — unsigned words as signed ones and back
-/

namespace DatalogClient

open Float.Model Float.Model.UnpackedFloat

/-! ### Rounding stays in range -/

private theorem mantissa_shiftRight_le (em : ExtendedMantissa) (k : Nat) :
    (em >>> k).mantissa ≤ em.mantissa := by
  induction k with
  | zero => exact le_rfl
  | succ k ih => exact (Nat.div_le_self _ 2).trans ih

private theorem roundedMantissa_le (em : ExtendedMantissa) :
    em.roundedMantissa ≤ em.mantissa + 1 := by
  obtain ⟨m, round, sticky⟩ := em
  cases round <;> cases sticky <;>
    simp only [ExtendedMantissa.roundedMantissa, ExtendedMantissa.accuracy,
      Accuracy.roundToNearestEven] <;> omega

private theorem log2_le_of_lt {m k : Nat} (h : m < 2 ^ k) : m.log2 ≤ k := by
  by_cases hm : m = 0
  · simp [hm]
  · exact ((Nat.log2_lt hm).mpr h).le

private theorem mantissaBits_binary64 : Format.binary64.mantissaBits = 53 := rfl

/-- Shifting raises the exponent no further than the mantissa is long. -/
private theorem shiftToTargetExponent_bounds {m k : Nat} (hm : m < 2 ^ k) {e : Int} (he : -1074 ≤ e)
    (accuracy : Accuracy) :
    (shiftToTargetExponent Format.binary64 m e accuracy).1.mantissa ≤ m ∧
      -1074 ≤ (shiftToTargetExponent Format.binary64 m e accuracy).2 ∧
      (shiftToTargetExponent Format.binary64 m e accuracy).2 ≤ e + k := by
  have hlog := log2_le_of_lt hm
  refine ⟨?_, ?_, ?_⟩
  · refine (mantissa_shiftRight_le _ _).trans (le_of_eq ?_)
    match accuracy with
    | .exact => rfl
    | .inexact .lt => rfl
    | .inexact .eq => rfl
    | .inexact .gt => rfl
  · simp only [shiftToTargetExponent, shiftToExponent]
    omega
  · simp only [shiftToTargetExponent, shiftToExponent, Format.targetExponent, totalExponent,
      mantissaBits_binary64, Format.minExponent]
    omega

/-- A number that is zero, or whose exponent leaves room below that of infinity. -/
private def InRange : UnpackedFloat → Prop
  | .zero _ => True
  | .finite _ _ e _ => e ≤ 900
  | _ => False

private theorem inRange_roundWithAccuracy (sign : Sign) {m k : Nat} (hm : m < 2 ^ k) {e : Int}
    (he : -1074 ≤ e) (hsum : e + k + (k + 1 : Nat) ≤ 900) (accuracy : Accuracy) :
    InRange (roundWithAccuracy Format.binary64 sign m e accuracy) := by
  obtain ⟨hem, hlow, hhigh⟩ := shiftToTargetExponent_bounds hm he accuracy
  generalize hfirst : shiftToTargetExponent Format.binary64 m e accuracy = first at *
  obtain ⟨em, e₁⟩ := first
  -- Rounding up may lengthen the mantissa by a bit, after which it is shifted once more.
  have hrounded : em.roundedMantissa < 2 ^ (k + 1) := by
    have hround := roundedMantissa_le em
    have hpow : 2 ^ (k + 1) = 2 * 2 ^ k := by rw [pow_succ, mul_comm]
    dsimp only at hem
    omega
  obtain ⟨-, -, hsecond⟩ := shiftToTargetExponent_bounds hrounded hlow .exact
  rw [roundWithAccuracy, hfirst]
  dsimp only
  generalize shiftToTargetExponent Format.binary64 em.roundedMantissa e₁ .exact = second at hsecond
  by_cases hzero : second.1.mantissa = 0
  · rw [dif_pos hzero]
    trivial
  · rw [dif_neg hzero]
    dsimp only at hhigh
    have htotal : second.2 ≤ 900 := by omega
    exact htotal

private theorem isFinite_unpack {b : BitVec Format.binary64.numBits}
    (h : unpackExponent b ≠ -1#_) : (UnpackedFloat.unpack Format.binary64 b).isFinite = true := by
  delta UnpackedFloat.unpack
  dsimp only
  rw [if_neg h]
  by_cases hexponent : unpackExponent b = 0#_
  · rw [if_pos hexponent]
    by_cases hmantissa : unpackMantissa b = 0#_
    · rw [dif_pos hmantissa]
      rfl
    · rw [dif_neg hmantissa]
      rfl
  · rw [if_neg hexponent]
    rfl

/-- Of a number in range the biased exponent is below the greatest one, of all ones. -/
private theorem exists_pack_finite (sign : Sign) {m : Nat} {e : Int} (hm : 0 < m) (he : e ≤ 900) :
    ∃ biased < 2 ^ Format.binary64.exponentBits - 1,
      UnpackedFloat.pack Format.binary64 (.finite sign m e hm) =
        packComponents Format.binary64 sign (BitVec.ofNat _ biased) (BitVec.ofNat _ m) := by
  have hbias : Format.binary64.exponentBias = 1023 := rfl
  delta UnpackedFloat.pack
  dsimp only
  generalize hbiased : (e + Format.binary64.exponentBias +
    Format.binary64.mantissaBitsWithoutImplicit).toNat = biased
  have hlt : biased + 1 < 2 ^ Format.binary64.exponentBits := by
    rw [hbias] at hbiased
    simp only at hbiased ⊢
    omega
  rw [if_neg (Nat.not_le.mpr hlt)]
  by_cases hnormal : m.log2 + 1 = Format.binary64.mantissaBits
  · rw [if_pos hnormal]
    exact ⟨biased, Nat.lt_sub_of_add_lt hlt, rfl⟩
  · -- Subnormal numbers have the exponent zero.
    rw [if_neg hnormal]
    exact ⟨0, by decide, rfl⟩

private theorem isFinite_unpack_pack {f : UnpackedFloat} (h : InRange f) :
    (UnpackedFloat.unpack Format.binary64 (UnpackedFloat.pack Format.binary64 f)).isFinite =
      true := by
  refine isFinite_unpack ?_
  match f with
  | .zero sign =>
    have hpack : UnpackedFloat.pack Format.binary64 (.zero sign) =
      packedZero Format.binary64 sign := rfl
    rw [hpack, packedZero, unpackExponent_packComponents]
    decide
  | .finite sign m e hm =>
    obtain ⟨biased, hlt, hpack⟩ := exists_pack_finite sign hm h
    rw [hpack, unpackExponent_packComponents]
    intro hones
    have htoNat := congrArg BitVec.toNat hones
    simp only [BitVec.toNat_ofNat] at htoNat hlt
    norm_num at htoNat
    omega

/-- The floating-point number nearest to an unsigned word is finite. -/
theorem isFinite_toFloat (n : UInt64) : n.toFloat.isFinite = true := by
  refine isFinite_unpack_pack (f := UnpackedFloat.ofUInt64 Format.binary64 n) ?_
  have hn : n.toNat < 2 ^ 64 := n.toNat_lt
  have hlog := log2_le_of_lt hn
  rw [UnpackedFloat.ofUInt64, UnpackedFloat.ofNat, UnpackedFloat.ofInt, UnpackedFloat.normalize]
  split
  · -- No unsigned word is negative.
    rename_i hcompare
    rw [compare_lt_iff_lt] at hcompare
    omega
  · trivial
  · -- The word is first made as long as a significand is.
    rw [UnpackedFloat.round, decreaseExponent, Int.toNat_natCast]
    generalize hshift : ((0 : Int) - Format.binary64.targetExponent
      (totalExponent n.toNat 0)).toNat = shift
    have hle : shift ≤ 52 := by
      rw [← hshift]
      simp only [Format.targetExponent, totalExponent, mantissaBits_binary64, Format.minExponent]
      omega
    have hlong : n.toNat <<< shift < 2 ^ 116 := by
      rw [Nat.shiftLeft_eq]
      calc n.toNat * 2 ^ shift ≤ n.toNat * 2 ^ 52 :=
            Nat.mul_le_mul_left _ (Nat.pow_le_pow_right (by decide) hle)
        _ < 2 ^ 64 * 2 ^ 52 := Nat.mul_lt_mul_of_pos_right hn (by decide)
        _ = 2 ^ 116 := by norm_num
    exact inRange_roundWithAccuracy _ hlong (by omega) (by push_cast; omega) _

/-! ### Signed and unsigned words -/

/-- A number in range is that of an unsigned word. -/
theorem exists_toNat_eq {n : Int} (hlow : 0 ≤ n) (hhigh : n < 2 ^ 64) :
    ∃ word : UInt64, (word.toNat : Int) = n := by
  obtain ⟨m, rfl⟩ := Int.eq_ofNat_of_zero_le hlow
  refine ⟨m.toUInt64, congrArg Int.ofNat (UInt64.toNat_ofNat_of_lt' ?_)⟩
  have hsize : UInt64.size = 2 ^ 64 := rfl
  omega

/-- An unsigned word that a signed one can hold is that signed word. -/
theorem toUInt64_ofInt_toNat {n : UInt64} (h : (n.toNat : Int) ≤ Int64.maxValue.toInt) :
    (Int64.ofInt n.toNat).toUInt64 = n ∧ ¬ Int64.ofInt n.toNat < 0 := by
  rw [Int64.toInt_maxValue] at h
  have hint : (Int64.ofInt n.toNat).toInt = n.toNat :=
    Int64.toInt_ofInt_of_le (by omega) (by omega)
  have hpos : 0 ≤ Int64.ofInt n.toNat := by
    rw [Int64.le_iff_toInt_le, hint, Int64.toInt_zero]
    omega
  refine ⟨UInt64.toNat_inj.mp ?_, Int64.not_lt.mpr hpos⟩
  rw [Int64.toNat_toUInt64_of_le hpos, ← Int64.toNat_toInt, hint, Int.toNat_natCast]

/-- A signed word that is not negative is the same number as an unsigned one. -/
theorem toNat_toUInt64 {n : Int64} (h : ¬ n < 0) : (n.toUInt64.toNat : Int) = n.toInt := by
  have hpos : 0 ≤ n := Int64.not_lt.mp h
  have hint : 0 ≤ n.toInt := by
    rwa [Int64.le_iff_toInt_le, Int64.toInt_zero] at hpos
  rw [Int64.toNat_toUInt64_of_le hpos, ← Int64.toNat_toInt, Int.toNat_of_nonneg hint]

/-- A signed word that is not negative is an unsigned one that a signed one can hold. -/
theorem toNat_toUInt64_le {n : Int64} (h : ¬ n < 0) :
    (n.toUInt64.toNat : Int) ≤ Int64.maxValue.toInt := by
  rw [toNat_toUInt64 h]
  exact n.toInt_le

end DatalogClient
