import Gapscript.Proofs.Number.Spelling
import Mathlib

/-!
# Which numbers are finite

A number is finite if its bits do not have the greatest exponent (`isFinite_iff`), whatever its sign is.
Rounding a quotient gives a finite number or none (`isFinite_ofRatio?`): the exponent that it chooses leaves
53 bits. So the only numerals of anything but a finite number are the words (`finite_or_word`).
-/

namespace Gapscript.Number

open Float.Model

/-! ## Bits -/

theorem unpackExponent_toNat (b : BitVec Format.binary64.numBits) :
    (UnpackedFloat.unpackExponent b).toNat = b.toNat / 2 ^ 52 % 2 ^ 11 := by
  simp [UnpackedFloat.unpackExponent, BitVec.extractLsb_toNat, Nat.shiftRight_eq_div_pow]

/-- A number without the bit that is left out is packed with the least exponent. -/
theorem pack_subnormal (s : UnpackedFloat.Sign) {m : Nat} (small : m < 2 ^ 52) (pos : 0 < m) (e : Int)
    (he : e = -1074) :
    UnpackedFloat.unpackExponent (UnpackedFloat.pack Format.binary64 (.finite s m e pos)) = 0#11 := by
  subst he
  have bits : m.log2 < 52 := (Nat.log2_lt (Nat.ne_of_gt pos)).2 small
  rw [UnpackedFloat.pack]
  dsimp only
  rw [if_neg (by decide), if_neg, UnpackedFloat.unpackExponent_packComponents]
  show ¬ (m.log2 + 1 = 1 + 52)
  omega

/-- A number with the bit that is left out is packed with its exponent. -/
theorem pack_normal (s : UnpackedFloat.Sign) {m k : Nat} (least : 2 ^ 52 ≤ m) (small : m < 2 ^ 53) (pos : 0 < m)
    (range : k < 2047) (e : Int) (he : e = k - 1075) :
    UnpackedFloat.unpackExponent (UnpackedFloat.pack Format.binary64 (.finite s m e pos)) = BitVec.ofNat 11 k := by
  have bits : m.log2 = 52 := (Nat.log2_eq_iff (Nat.ne_of_gt pos)).2 ⟨least, small⟩
  have exponent : (e + Format.binary64.exponentBias + Format.binary64.mantissaBitsWithoutImplicit).toNat = k := by
    show (e + (1023 : Nat) + (52 : Nat)).toNat = k
    omega
  rw [UnpackedFloat.pack]
  dsimp only
  rw [exponent, if_neg, if_pos, UnpackedFloat.unpackExponent_packComponents]
  · show m.log2 + 1 = 1 + 52
    omega
  · show ¬ (2 ^ 11 ≤ k + 1)
    omega

/-- Neither packing what was unpacked nor a change of its sign affects the exponent. -/
theorem unpackExponent_pack {b : BitVec Format.binary64.numBits} {u : UnpackedFloat}
    (h : u = UnpackedFloat.unpack Format.binary64 b ∨ u = (UnpackedFloat.unpack Format.binary64 b).neg) :
    UnpackedFloat.unpackExponent (UnpackedFloat.pack Format.binary64 u) =
      UnpackedFloat.unpackExponent b := by
  have width : (UnpackedFloat.unpackMantissa b).toNat < 2 ^ 52 := BitVec.isLt _
  unfold UnpackedFloat.unpack at h
  dsimp only at h
  split at h
  · next infinite =>
    rw [infinite]
    split at h
    · rcases h with rfl | rfl <;> simp [UnpackedFloat.neg, UnpackedFloat.pack, UnpackedFloat.packedInfinity]
    · rcases h with rfl | rfl <;> simp [UnpackedFloat.neg, UnpackedFloat.pack, UnpackedFloat.packedNaN]
  · next finite =>
    split at h
    · next least =>
      rw [least]
      split at h
      · rcases h with rfl | rfl <;> simp [UnpackedFloat.neg, UnpackedFloat.pack, UnpackedFloat.packedZero]
      · have exponent : ((UnpackedFloat.unpackExponent b).toNat : Int) -
            (Format.binary64.exponentBias + Format.binary64.mantissaBitsWithoutImplicit) + 1 = -1074 := by
          rw [least]
          decide
        rcases h with rfl | rfl <;> exact pack_subnormal _ width _ _ exponent
    · next normal =>
      have value : ((1#1) ++ UnpackedFloat.unpackMantissa b).toNat =
          2 ^ 52 + (UnpackedFloat.unpackMantissa b).toNat := by
        rw [BitVec.toNat_append, ← Nat.shiftLeft_add_eq_or_of_lt width]
        rfl
      have range : (UnpackedFloat.unpackExponent b).toNat < 2047 := by
        have bound := (UnpackedFloat.unpackExponent b).isLt
        have differ : (UnpackedFloat.unpackExponent b).toNat ≠ 2047 :=
          fun h => finite (BitVec.eq_of_toNat_eq h)
        change _ < 2 ^ 11 at bound
        omega
      have exponent : ((UnpackedFloat.unpackExponent b).toNat : Int) -
            (Format.binary64.exponentBias + Format.binary64.mantissaBitsWithoutImplicit) =
          ((UnpackedFloat.unpackExponent b).toNat : Int) - 1075 := rfl
      have same := (BitVec.ofNat_toNat 11 (UnpackedFloat.unpackExponent b)).trans
        (BitVec.setWidth_eq _)
      rcases h with rfl | rfl
      · exact (pack_normal _ (by omega) (by omega) _ range _ exponent).trans same
      · exact (pack_normal _ (by omega) (by omega) _ range _ exponent).trans same

/-- A number is finite if its bits do not have the greatest exponent. -/
theorem isFinite_iff (x : Float) : isFinite x = true ↔ x.toBits.toNat / 2 ^ 52 % 2 ^ 11 ≠ 2047 := by
  have powers : pow2 52 = 2 ^ 52 ∧ pow2 11 = 2 ^ 11 := ⟨rfl, rfl⟩
  unfold isFinite view
  dsimp only
  rw [powers.1, powers.2]
  split
  · next m e found =>
    split at found
    · split at found <;> cases found
    · next finite => simpa using finite
  · next other =>
    constructor
    · nofun
    · intro finite
      rw [if_neg finite] at other
      split at other <;> exact absurd rfl (other _ _ _)

theorem isFinite_ofBits (b : UInt64) : isFinite (Float.ofBits b) = true ↔ b.toNat / 2 ^ 52 % 2 ^ 11 ≠ 2047 := by
  have same := congrArg BitVec.toNat (unpackExponent_pack (b := b.toBitVec) (.inl rfl))
  rw [unpackExponent_toNat, unpackExponent_toNat] at same
  have bits : (Float.ofBits b).toBits.toNat / 2 ^ 52 % 2 ^ 11 = b.toNat / 2 ^ 52 % 2 ^ 11 := same
  rw [isFinite_iff, bits]

theorem isFinite_neg (x : Float) : isFinite (-x) = isFinite x := by
  have same := congrArg BitVec.toNat (unpackExponent_pack (b := x.toModel.toBits.toBitVec) (.inr rfl))
  rw [unpackExponent_toNat, unpackExponent_toNat] at same
  have bits : (-x).toBits.toNat / 2 ^ 52 % 2 ^ 11 = x.toBits.toNat / 2 ^ 52 % 2 ^ 11 := same
  rw [Bool.eq_iff_iff, isFinite_iff, isFinite_iff, bits]

theorem isFinite_withSign (negative : Bool) (x : Float) : isFinite (withSign negative x) = isFinite x := by
  rw [withSign]
  split
  · rfl
  · exact isFinite_neg x


/-! ## Rounding -/

theorem pow2_eq (n : Nat) : pow2 n = 2 ^ n := rfl

theorem roundDiv_le (n d : Nat) : roundDiv n d ≤ n / d + 1 := by
  unfold roundDiv
  dsimp only
  split
  · omega
  · split
    · have := Nat.mod_lt (n / d) (show 0 < 2 by decide)
      omega
    · omega

/-- Scaling by a power of two multiplies the one number or the other. -/
theorem scaled_eq {α : Type} (f : Nat → Nat → α) (n d : Nat) (e : Int) :
    (if e ≥ 0 then f n (d * pow2 e.toNat) else f (n * pow2 (-e).toNat) d) =
      f (n * 2 ^ (-e).toNat) (d * 2 ^ e.toNat) := by
  split
  · have none_ : (-e).toNat = 0 := by omega
    rw [none_, Nat.pow_zero, Nat.mul_one]
    rfl
  · have none_ : e.toNat = 0 := by omega
    rw [none_, Nat.pow_zero, Nat.mul_one]
    rfl

/-- A quotient gets smaller with the exponent. -/
theorem scaled_lt_of_le {n d m : Nat} {e e' : Int} (le : e ≤ e')
    (lt : n * 2 ^ (-e).toNat < m * (d * 2 ^ e.toNat)) : n * 2 ^ (-e').toNat < m * (d * 2 ^ e'.toNat) :=
  calc n * 2 ^ (-e').toNat
      ≤ n * 2 ^ (-e).toNat := Nat.mul_le_mul_left n (Nat.pow_le_pow_right (by decide) (by omega))
    _ < m * (d * 2 ^ e.toNat) := lt
    _ ≤ m * (d * 2 ^ e'.toNat) :=
      Nat.mul_le_mul_left m (Nat.mul_le_mul_left d (Nat.pow_le_pow_right (by decide) (by omega)))

/-- With one bit more to spare than the lengths of the numbers differ by, a quotient has 53 bits. -/
theorem scaled_lt {n d : Nat} (hd : d ≠ 0) {e : Int} (he : e = (n.log2 : Int) - d.log2 - 52) :
    n * 2 ^ (-e).toNat < 2 ^ 53 * (d * 2 ^ e.toNat) := by
  have above : n < 2 ^ (n.log2 + 1) := Nat.lt_log2_self
  have below : 2 ^ d.log2 ≤ d := Nat.log2_self_le hd
  calc n * 2 ^ (-e).toNat
      < 2 ^ (n.log2 + 1) * 2 ^ (-e).toNat := Nat.mul_lt_mul_of_pos_right above (Nat.two_pow_pos _)
    _ = 2 ^ 53 * (2 ^ d.log2 * 2 ^ e.toNat) := by
      rw [← Nat.pow_add, ← Nat.pow_add, ← Nat.pow_add]
      congr 1
      omega
    _ ≤ 2 ^ 53 * (d * 2 ^ e.toNat) := Nat.mul_le_mul_left _ (Nat.mul_le_mul_right _ below)

/-- The chosen exponent leaves at most 53 bits, but for rounding. -/
theorem roundScaled_scaleOf_le {n d : Nat} (hd : d ≠ 0) : roundScaled n d (scaleOf n d) ≤ 2 ^ 53 := by
  have bound : n * 2 ^ (-scaleOf n d).toNat < 2 ^ 53 * (d * 2 ^ (scaleOf n d).toNat) := by
    rw [scaleOf]
    refine scaled_lt_of_le (Int.le_max_right _ _) ?_
    rw [scaled_eq (· / ·)]
    split
    · next fits =>
      exact (Nat.div_lt_iff_lt_mul (Nat.mul_pos (Nat.pos_of_ne_zero hd) (Nat.two_pow_pos _))).1 fits
    · exact scaled_lt hd (by omega)
  have positive : 0 < d * 2 ^ (scaleOf n d).toNat :=
    Nat.mul_pos (Nat.pos_of_ne_zero hd) (Nat.two_pow_pos _)
  rw [roundScaled, scaled_eq]
  exact Nat.le_trans (roundDiv_le _ _) ((Nat.div_lt_iff_lt_mul positive).2 bound)

/-- A quotient is rounded to a finite number. -/
theorem isFinite_ofRatio? {n d : Nat} {x : Float} (hd : d ≠ 0) (h : ofRatio? n d = some x) : isFinite x = true := by
  have fits := roundScaled_scaleOf_le (n := n) hd
  have least : -1074 ≤ scaleOf n d := Int.le_max_left _ _
  unfold ofRatio? at h
  split at h
  · cases h
    exact (isFinite_ofBits 0).2 (by decide)
  · obtain ⟨m, e, pair, fits, least⟩ : ∃ m e, (if roundScaled n d (scaleOf n d) = pow2 53
        then (pow2 52, scaleOf n d + 1) else (roundScaled n d (scaleOf n d), scaleOf n d)) = (m, e) ∧
        m < 2 ^ 53 ∧ -1074 ≤ e := by
      split
      · exact ⟨_, _, rfl, by decide, by omega⟩
      · next other => exact ⟨_, _, rfl, Nat.lt_of_le_of_ne fits other, least⟩
    dsimp only at h
    rw [pair] at h
    dsimp only at h
    split at h
    · cases h
    · split at h
      · next small =>
        cases h
        refine (isFinite_ofBits _).2 ?_
        rw [pow2_eq] at small
        rw [UInt64.toNat_ofNat']
        omega
      · next large =>
        cases h
        refine (isFinite_ofBits _).2 ?_
        rw [pow2_eq] at large
        rw [UInt64.toNat_ofNat', pow2_eq]
        omega

theorem isFinite_ofDecimal? {n : Nat} {e : Int} {x : Float} (h : ofDecimal? n e = some x) : isFinite x = true := by
  unfold ofDecimal? at h
  have zero : isFinite (Float.ofBits 0) = true := (isFinite_ofBits 0).2 (by decide)
  split at h
  · cases h
    exact zero
  · split at h
    · cases h
    · split at h
      · cases h
        exact zero
      · exact isFinite_ofRatio? (Nat.ne_of_gt (Nat.pow_pos (by decide))) h

theorem isFinite_ofBinary? {n : Nat} {e : Int} {x : Float} (h : ofBinary? n e = some x) : isFinite x = true := by
  unfold ofBinary? at h
  dsimp only at h
  split at h
  · next finite =>
    cases h
    exact finite
  · cases h

/-! ## Numerals -/

theorem Numeral.isFinite_value? {hexadecimal : Bool} {m : Numeral} {x : Float}
    (h : m.value? hexadecimal = some x) : isFinite x = true := by
  rw [value?] at h
  cases hexadecimal with
  | false => exact isFinite_ofDecimal? h
  | true => exact isFinite_ofBinary? h

/-- A text that spells anything but a finite number is a word. -/
theorem finite_or_word {t : List Char} {x : Float} (spells : Spells t x) :
    isFinite x = true ∨ (∃ negative, x = infinity negative) ∨ x = nan := by
  cases spells with
  | infinity sign word => exact .inr (.inl ⟨sign.negative, rfl⟩)
  | nan word => exact .inr (.inr rfl)
  | decimal sign proper text grouped value =>
    exact .inl (by rw [isFinite_withSign, Numeral.isFinite_value? value])
  | hexadecimal sign base proper text grouped value =>
    exact .inl (by rw [isFinite_withSign, Numeral.isFinite_value? value])

end Gapscript.Number
