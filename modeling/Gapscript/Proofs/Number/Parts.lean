import Gapscript.Proofs.Number.Finite
import Mathlib

/-!
# The parts of finite numbers

The sign, the mantissa and the exponent of a finite number. The other sign leaves the rest of it (`view_neg`), and a
number of 53 bits is put together from its parts (`view_compose`).
-/

namespace Gapscript.Number

open Float.Model

/-! ## Parts -/

theorem unpackMantissa_toNat (b : BitVec Format.binary64.numBits) :
    (UnpackedFloat.unpackMantissa b).toNat = b.toNat % 2 ^ 52 := by
  simp [UnpackedFloat.unpackMantissa, BitVec.extractLsb_toNat]

theorem unpackSign_toNat (b : BitVec Format.binary64.numBits) :
    (UnpackedFloat.unpackSign b).toNat = b.toNat / 2 ^ 63 % 2 := by
  simp [UnpackedFloat.unpackSign, BitVec.extractLsb_toNat, Nat.shiftRight_eq_div_pow]

/-- The bits of a number are kept, but for those that are no number. -/
theorem toBits_ofBits {b : UInt64} (finite : b.toNat / 2 ^ 52 % 2 ^ 11 ≠ 2047) : (Float.ofBits b).toBits = b := by
  have bits : (Float.ofBits b).toBits.toBitVec =
      UnpackedFloat.pack Format.binary64 (UnpackedFloat.unpack Format.binary64 b.toBitVec) := rfl
  have number : @UnpackedFloat.isNaNBits Format.binary64 b.toBitVec = false := by
    refine decide_eq_false fun nan => finite ?_
    have same := congrArg BitVec.toNat nan.1
    rwa [unpackExponent_toNat] at same
  rw [UnpackedFloat.pack_unpack, number] at bits
  exact UInt64.toBitVec_inj.1 bits

/-- The other sign leaves the rest of a finite number. -/
theorem neg_unpack (b : BitVec Format.binary64.numBits) (finite : UnpackedFloat.unpackExponent b ≠ -1#11) :
    (UnpackedFloat.unpack Format.binary64 b).neg = UnpackedFloat.unpack Format.binary64
      (UnpackedFloat.packComponents Format.binary64 (-.ofBitVec (UnpackedFloat.unpackSign b))
        (UnpackedFloat.unpackExponent b) (UnpackedFloat.unpackMantissa b)) := by
  unfold UnpackedFloat.unpack
  simp only [UnpackedFloat.unpackExponent_packComponents, UnpackedFloat.unpackMantissa_packComponents,
    UnpackedFloat.unpackSign_packComponents, UnpackedFloat.Sign.ofBitVec_toBitVec]
  rw [if_neg finite, if_neg finite]
  split
  · split <;> rfl
  · rfl

/-- A change of its sign leaves the bits of a finite number but for the first one. -/
theorem toBits_neg {x : Float} (finite : isFinite x = true) :
    (-x).toBits.toNat % 2 ^ 52 = x.toBits.toNat % 2 ^ 52 ∧
      (-x).toBits.toNat / 2 ^ 52 % 2 ^ 11 = x.toBits.toNat / 2 ^ 52 % 2 ^ 11 ∧
      (-x).toBits.toNat / 2 ^ 63 % 2 = 1 - x.toBits.toNat / 2 ^ 63 % 2 := by
  have exponent := (isFinite_iff x).1 finite
  have range : @UnpackedFloat.unpackExponent Format.binary64 x.toBits.toBitVec ≠ -1#11 := by
    intro greatest
    have same := congrArg BitVec.toNat greatest
    rw [unpackExponent_toNat] at same
    exact exponent same
  have bits : (-x).toBits.toBitVec =
      UnpackedFloat.pack Format.binary64 (UnpackedFloat.unpack Format.binary64 x.toBits.toBitVec).neg := rfl
  have number : UnpackedFloat.isNaNBits (UnpackedFloat.packComponents Format.binary64
      (-.ofBitVec (@UnpackedFloat.unpackSign Format.binary64 x.toBits.toBitVec))
      (UnpackedFloat.unpackExponent x.toBits.toBitVec) (UnpackedFloat.unpackMantissa x.toBits.toBitVec)) = false := by
    refine decide_eq_false fun nan => range ?_
    rw [← nan.1, UnpackedFloat.unpackExponent_packComponents]
  rw [neg_unpack _ range, UnpackedFloat.pack_unpack, number, if_neg Bool.false_ne_true] at bits
  have flipped (s : BitVec 1) : (-UnpackedFloat.Sign.ofBitVec s).toBitVec.toNat = 1 - s.toNat := by
    decide +revert
  refine ⟨?_, ?_, ?_⟩
  · refine (unpackMantissa_toNat (-x).toBits.toBitVec).symm.trans ?_
    rw [bits, UnpackedFloat.unpackMantissa_packComponents, unpackMantissa_toNat]
    rfl
  · refine (unpackExponent_toNat (-x).toBits.toBitVec).symm.trans ?_
    rw [bits, UnpackedFloat.unpackExponent_packComponents, unpackExponent_toNat]
    rfl
  · refine (unpackSign_toNat (-x).toBits.toBitVec).symm.trans ?_
    rw [bits, UnpackedFloat.unpackSign_packComponents, flipped, unpackSign_toNat]
    rfl

/-- The parts of a finite number are read off its bits. -/
theorem view_eq_finite_iff {x : Float} {negative : Bool} {m : Nat} {e : Int} :
    view x = .finite negative m e ↔
      isNegative x = negative ∧ x.toBits.toNat / 2 ^ 52 % 2 ^ 11 ≠ 2047 ∧
        if x.toBits.toNat / 2 ^ 52 % 2 ^ 11 = 0 then m = x.toBits.toNat % 2 ^ 52 ∧ e = -1074
        else m = x.toBits.toNat % 2 ^ 52 + 2 ^ 52 ∧ e = (x.toBits.toNat / 2 ^ 52 % 2 ^ 11 : Nat) - 1075 := by
  unfold view isNegative
  dsimp only
  rw [pow2_eq, pow2_eq, pow2_eq]
  generalize x.toBits.toNat / 2 ^ 52 % 2 ^ 11 = k
  generalize x.toBits.toNat % 2 ^ 52 = f
  by_cases greatest : k = 2047
  · rw [if_pos greatest]
    split <;> simp [greatest]
  · rw [if_neg greatest]
    split <;> simp [greatest, eq_comm]

/-- A finite number has at most 53 bits, and fewer only at the least exponent. -/
theorem bounds_of_view {x : Float} {negative : Bool} {m : Nat} {e : Int} (parts : view x = .finite negative m e) :
    m < 2 ^ 53 ∧ -1074 ≤ e ∧ e ≤ 971 ∧ (-1074 < e → 2 ^ 52 ≤ m) := by
  obtain ⟨-, finite, fields⟩ := view_eq_finite_iff.1 parts
  split at fields <;> omega

theorem isFinite_of_view {x : Float} {negative : Bool} {m : Nat} {e : Int} (parts : view x = .finite negative m e) :
    isFinite x = true := by
  rw [isFinite, parts]

/-- The parts of a finite number with the other sign. -/
theorem view_neg {x : Float} {negative : Bool} {m : Nat} {e : Int} (parts : view x = .finite negative m e) :
    view (-x) = .finite (!negative) m e := by
  obtain ⟨mantissa, exponent, sign⟩ := toBits_neg (isFinite_of_view parts)
  obtain ⟨rfl, fields⟩ := view_eq_finite_iff.1 parts
  have flipped : isNegative (-x) = !isNegative x := by
    have short := x.toBits.toNat_lt
    have short' := (-x).toBits.toNat_lt
    rw [isNegative, isNegative, pow2_eq, Bool.eq_iff_iff, Bool.not_eq_true', beq_iff_eq, beq_eq_false_iff_ne]
    omega
  rw [view_eq_finite_iff, exponent, mantissa]
  exact ⟨flipped, fields⟩

/-- The parts of a finite number with a sign of its own. -/
theorem view_withSign {x : Float} {m : Nat} {e : Int} {positive : Bool} (parts : view x = .finite positive m e)
    (negative : Bool) : view (withSign negative x) = .finite negative m e := by
  rw [withSign, (view_eq_finite_iff.1 parts).1]
  by_cases same : negative = positive
  · rw [same, beq_self_eq_true, if_pos rfl, parts]
  · have other : negative = !positive := by
      cases negative <;> cases positive <;> simp at same ⊢
    rw [beq_eq_false_iff_ne.2 same, if_neg Bool.false_ne_true, view_neg parts, other]

/-! ## Numbers of 53 bits -/

/-- The number `m · 2 ^ e` of 53 bits. -/
def compose (m : Nat) (e : Int) : Float :=
  Float.ofBits (UInt64.ofNat ((e + 1075).toNat * pow2 52 + (m - pow2 52)))

theorem view_compose {m : Nat} {e : Int} (least : 2 ^ 52 ≤ m) (small : m < 2 ^ 53) (above : -1074 ≤ e)
    (below : e ≤ 971) : view (compose m e) = .finite false m e := by
  have bits : (UInt64.ofNat ((e + 1075).toNat * pow2 52 + (m - pow2 52))).toNat =
      (e + 1075).toNat * 2 ^ 52 + (m - 2 ^ 52) := by
    rw [UInt64.toNat_ofNat', pow2_eq]
    omega
  have kept : (compose m e).toBits.toNat = (e + 1075).toNat * 2 ^ 52 + (m - 2 ^ 52) := by
    rw [compose, toBits_ofBits (by rw [bits]; omega), bits]
  rw [view_eq_finite_iff, kept, isNegative, kept, pow2_eq, beq_eq_false_iff_ne, if_neg (by omega)]
  omega

/-! ## Zero -/

theorem beq_self_of_view {x : Float} {negative : Bool} {m : Nat} {e : Int}
    (parts : view x = .finite negative m e) : (x == x) = true := by
  rw [Float.beq_self_iff]
  rintro rfl
  have none_ : view Float.nan = .nan := by decide
  rw [none_] at parts
  cases parts

theorem ne_zero_of_view {x : Float} {negative : Bool} {m : Nat} {e : Int}
    (parts : view x = .finite negative m e) (pos : m ≠ 0) : (x == 0) = false := by
  rw [← Bool.not_eq_true, Float.beq_iff_ne_nan_and_eq]
  rintro ⟨-, -, rfl | ⟨rfl, -⟩ | ⟨rfl, -⟩⟩
  · cases parts
    exact pos rfl
  · cases parts
    exact pos rfl
  · cases parts
    exact pos rfl

theorem withSign_zero (negative : Bool) : (withSign negative (Float.ofBits 0) == 0) = true := by
  cases negative <;> decide

end Gapscript.Number
