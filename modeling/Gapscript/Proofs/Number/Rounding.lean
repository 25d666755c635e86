import Gapscript.Number.Shortest
import Gapscript.Proofs.Number.Parts
import Mathlib

/-!
# Integers rounded to numbers

Every integer in the interval of a whole number is rounded to that number (`Whole.ofRatio?_of_contains`), also where
the interval reaches below a power of two, and every integer that is not beyond the finite numbers is rounded to a
whole one (`exists_whole_of_ofRatio?`). A number without its fraction is zero or a whole number (`truncate_finite`).
-/

namespace Gapscript.Number

/-! ## Rounded quotients -/

/-- A quotient is rounded to an integer that is no more than a half away, to an odd one only if it is nearer. -/
theorem roundDiv_eq {n d m : Nat} (low : 2 * (m * d) ≤ 2 * n + d) (high : 2 * n ≤ 2 * (m * d) + d)
    (odd : m % 2 = 1 → 2 * (m * d) ≠ 2 * n + d ∧ 2 * n ≠ 2 * (m * d) + d) (hd : 0 < d) : roundDiv n d = m := by
  have cut : d * (n / d) + n % d = n := Nat.div_add_mod n d
  have rest : n % d < d := Nat.mod_lt n hd
  have near : m = n / d ∨ m = n / d + 1 := by
    have above : m < n / d + 2 := by
      refine Nat.lt_of_mul_lt_mul_left (a := d) ?_
      rw [Nat.mul_add, Nat.mul_comm d m]
      omega
    have below : n / d < m + 1 := by
      refine Nat.lt_of_mul_lt_mul_left (a := d) ?_
      rw [Nat.mul_add, Nat.mul_comm d m]
      omega
    omega
  unfold roundDiv
  dsimp only
  generalize n / d = q at cut near
  generalize n % d = r at cut rest
  subst cut
  rcases near with rfl | rfl
  · rw [Nat.mul_comm d m] at *
    split
    · rfl
    · split
      · have even : m % 2 ≠ 1 := fun h => (odd h).2 (by omega)
        omega
      · omega
  · rw [Nat.add_mul, Nat.one_mul, Nat.mul_comm d q] at *
    split
    · omega
    · split
      · have even : (q + 1) % 2 ≠ 1 := fun h => (odd h).1 (by omega)
        omega
      · rfl

/-- A rounded quotient is no more than a half away. -/
theorem roundDiv_near {n d : Nat} (hd : 0 < d) :
    2 * n ≤ 2 * (roundDiv n d * d) + d ∧ 2 * (roundDiv n d * d) ≤ 2 * n + d := by
  have cut : n / d * d + n % d = n := Nat.div_add_mod' n d
  have rest : n % d < d := Nat.mod_lt n hd
  unfold roundDiv
  dsimp only
  generalize n / d = q at cut ⊢
  generalize n % d = r at cut rest ⊢
  have next_ : (q + 1) * d = q * d + d := by rw [Nat.add_mul, Nat.one_mul]
  split
  · omega
  · split
    · rcases Nat.mod_two_eq_zero_or_one q with even | odd
      · rw [even, Nat.add_zero]
        omega
      · rw [odd]
        omega
    · omega

theorem le_roundDiv (n d : Nat) : n / d ≤ roundDiv n d := by
  unfold roundDiv
  dsimp only
  split
  · exact Nat.le_refl _
  · split <;> omega

/-! ## Integers -/

/-- An integer is scaled so that it has 53 bits. -/
theorem scaleOf_one {n : Nat} (pos : 0 < n) : scaleOf n 1 = (n.log2 : Int) - 52 := by
  have full : ¬ n * 2 ^ (-((n.log2 : Int) - 53)).toNat / (1 * 2 ^ ((n.log2 : Int) - 53).toNat) < 2 ^ 53 := by
    rw [Nat.div_lt_iff_lt_mul (by positivity), Nat.not_lt, Nat.one_mul, ← Nat.pow_add]
    calc 2 ^ (53 + ((n.log2 : Int) - 53).toNat)
        = 2 ^ (n.log2 + (-((n.log2 : Int) - 53)).toNat) := by congr 1; omega
      _ = 2 ^ n.log2 * 2 ^ (-((n.log2 : Int) - 53)).toNat := Nat.pow_add _ _ _
      _ ≤ n * 2 ^ (-((n.log2 : Int) - 53)).toNat := Nat.mul_le_mul_right _ (Nat.log2_self_le (Nat.ne_of_gt pos))
  have single : Nat.log2 1 = 0 := by decide
  rw [scaleOf, single, Int.natCast_zero, Int.sub_zero, scaled_eq (· / ·), pow2_eq, if_neg full]
  omega

/-- A rounded quotient of 53 bits. -/
theorem ofRatio?_of_rounded {n d m : Nat} {e : Int} (pos : 0 < n) (scale : scaleOf n d = e)
    (rounded : roundScaled n d e = m) (least : 2 ^ 52 ≤ m) (small : m < 2 ^ 53) (below : e ≤ 971) :
    ofRatio? n d = some (compose m e) := by
  unfold ofRatio?
  rw [if_neg (Nat.ne_of_gt pos), scale]
  dsimp only
  have whole : m ≠ pow2 53 := by rw [pow2_eq]; omega
  have normal : ¬ m < pow2 52 := by rw [pow2_eq]; omega
  rw [rounded, if_neg whole]
  dsimp only
  rw [if_neg (Int.not_lt.2 below), if_neg normal]
  rfl

/-- A rounded quotient that has one bit more. -/
theorem ofRatio?_of_carried {n d : Nat} {e : Int} (pos : 0 < n) (scale : scaleOf n d = e)
    (rounded : roundScaled n d e = 2 ^ 53) (below : e ≤ 970) : ofRatio? n d = some (compose (2 ^ 52) (e + 1)) := by
  unfold ofRatio?
  rw [if_neg (Nat.ne_of_gt pos), scale]
  dsimp only
  rw [rounded, if_pos (pow2_eq 53).symm]
  dsimp only
  rw [if_neg (by omega), if_neg (Nat.lt_irrefl _)]
  rfl

/-! ## Whole numbers -/

/-- The length of an integer between two powers of two, at a scale. -/
theorem log2_between {n k : Nat} {e : Int} (low : 2 ^ k * 2 ^ e.toNat ≤ n * 2 ^ (-e).toNat)
    (high : n * 2 ^ (-e).toNat < 2 ^ (k + 1) * 2 ^ e.toNat) : (n.log2 : Int) = k + e := by
  have pos : 0 < n := by
    rcases Nat.eq_zero_or_pos n with rfl | pos
    · have : 0 < 2 ^ k * 2 ^ e.toNat := by positivity
      omega
    · exact pos
  have above : n.log2 + (-e).toNat < k + 1 + e.toNat := by
    refine (Nat.pow_lt_pow_iff_right (a := 2) (by decide)).1 ?_
    rw [Nat.pow_add, Nat.pow_add 2 (k + 1)]
    exact Nat.lt_of_le_of_lt (Nat.mul_le_mul_right _ (Nat.log2_self_le (Nat.ne_of_gt pos))) high
  have below : k + e.toNat < n.log2 + 1 + (-e).toNat := by
    refine (Nat.pow_lt_pow_iff_right (a := 2) (by decide)).1 ?_
    rw [Nat.pow_add, Nat.pow_add 2 (n.log2 + 1)]
    exact Nat.lt_of_le_of_lt low (Nat.mul_lt_mul_of_pos_right Nat.lt_log2_self (by positivity))
  omega

/-- `m · 2 ^ e` has 53 bits and is a whole number. -/
structure Whole (m : Nat) (e : Int) : Prop where
  least : 2 ^ 52 ≤ m
  small : m < 2 ^ 53
  above : -52 ≤ e
  below : e ≤ 971
  whole : 2 ^ (-e).toNat ∣ m

/-- An integer below `2 ^ 53` is a whole number of its own. -/
theorem exists_whole_of_small {v : Nat} (pos : 0 < v) (small : v < 2 ^ 53) :
    ∃ m e, Whole m e ∧ e ≤ 0 ∧ v * 2 ^ (-e).toNat = m * 2 ^ e.toNat := by
  have bits : v.log2 < 53 := (Nat.log2_lt (Nat.ne_of_gt pos)).2 small
  have low : 2 ^ v.log2 * 2 ^ (52 - v.log2) ≤ v * 2 ^ (52 - v.log2) :=
    Nat.mul_le_mul_right _ (Nat.log2_self_le (Nat.ne_of_gt pos))
  have high : v * 2 ^ (52 - v.log2) < 2 ^ (v.log2 + 1) * 2 ^ (52 - v.log2) :=
    Nat.mul_lt_mul_of_pos_right Nat.lt_log2_self (by positivity)
  rw [← Nat.pow_add] at low high
  rw [show v.log2 + (52 - v.log2) = 52 by omega] at low
  rw [show v.log2 + 1 + (52 - v.log2) = 53 by omega] at high
  have scaled : (-((v.log2 : Int) - 52)).toNat = 52 - v.log2 := by omega
  have unscaled : ((v.log2 : Int) - 52).toNat = 0 := by omega
  refine ⟨v * 2 ^ (52 - v.log2), (v.log2 : Int) - 52, ⟨low, high, by omega, by omega, ?_⟩, by omega, ?_⟩
  · rw [scaled]
    exact Nat.dvd_mul_left _ _
  · rw [scaled, unscaled, Nat.pow_zero, Nat.mul_one]

namespace Whole

variable {m : Nat} {e : Int} (h : Whole m e)

include h

theorem view_compose (negative : Bool) : view (withSign negative (compose m e)) = .finite negative m e :=
  view_withSign (Number.view_compose h.least h.small (Int.le_trans (by decide) h.above) h.below) negative

theorem unit_le : 2 ^ 52 * 2 ^ e.toNat ≤ m * 2 ^ e.toNat := Nat.mul_le_mul_right _ h.least

theorem le_unit : m * 2 ^ e.toNat + 2 ^ e.toNat ≤ 2 ^ 53 * 2 ^ e.toNat := by
  rw [← Nat.succ_mul]
  exact Nat.mul_le_mul_right _ h.small

/-- The integer that a whole number is. -/
theorem exists_value :
    ∃ v, v * 2 ^ (-e).toNat = m * 2 ^ e.toNat ∧ (v.log2 : Int) = 52 + e ∧ 0 < v := by
  obtain ⟨c, rfl⟩ := h.whole
  have least := h.least
  have positive : 0 < 2 ^ e.toNat := by positivity
  have value : c * 2 ^ e.toNat * 2 ^ (-e).toNat = 2 ^ (-e).toNat * c * 2 ^ e.toNat := by ring
  refine ⟨c * 2 ^ e.toNat, value, ?_, ?_⟩
  · refine log2_between (k := 52) ?_ ?_
    · rw [value]
      exact Nat.mul_le_mul_right _ least
    · rw [value]
      exact Nat.mul_lt_mul_of_pos_right h.small positive
  · rcases Nat.eq_zero_or_pos c with rfl | pos
    · simp at least
    · exact Nat.mul_pos pos positive

/-! ### Intervals -/

/-- What is less than a quarter of a unit away lies in the interval. -/
theorem contains_of_near {n : Nat} (low : 4 * (m * 2 ^ e.toNat) < 4 * (n * 2 ^ (-e).toNat) + 2 ^ e.toNat)
    (high : 4 * (n * 2 ^ (-e).toNat) < 4 * (m * 2 ^ e.toNat) + 2 ^ e.toNat) :
    (Interval.of m e).contains n 0 = true := by
  have unit := h.unit_le
  have positive : 0 < 2 ^ e.toNat := by positivity
  unfold Interval.of Interval.contains
  dsimp only
  rw [Int.neg_zero, Int.toNat_zero]
  simp only [show pow10 0 = 1 from rfl, pow2_eq, Nat.mul_one, Nat.sub_mul, Nat.add_mul]
  rw [show n * (4 * 2 ^ (-e).toNat) = 4 * (n * 2 ^ (-e).toNat) by ring, Nat.mul_assoc 4 m]
  have below : 4 * (m * 2 ^ e.toNat) - (if m = 2 ^ 52 ∧ e > -1074 then 1 else 2) * 2 ^ e.toNat <
      4 * (n * 2 ^ (-e).toNat) := by
    split <;> omega
  have above : 4 * (n * 2 ^ (-e).toNat) < 4 * (m * 2 ^ e.toNat) + 2 * 2 ^ e.toNat := by omega
  split
  · exact Bool.and_eq_true_iff.2 ⟨decide_eq_true (Nat.le_of_lt below), decide_eq_true (Nat.le_of_lt above)⟩
  · exact Bool.and_eq_true_iff.2 ⟨decide_eq_true below, decide_eq_true above⟩

/-- The integers in the interval are at most half a unit away, below a power of two half as far, and from an odd
number less far. -/
theorem between_of_contains {n : Nat} (inside : (Interval.of m e).contains n 0 = true) :
    4 * (m * 2 ^ e.toNat) ≤ 4 * (n * 2 ^ (-e).toNat) + (if m = 2 ^ 52 then 1 else 2) * 2 ^ e.toNat ∧
      4 * (n * 2 ^ (-e).toNat) ≤ 4 * (m * 2 ^ e.toNat) + 2 * 2 ^ e.toNat ∧
      (m % 2 = 1 → 4 * (m * 2 ^ e.toNat) ≠ 4 * (n * 2 ^ (-e).toNat) + 2 * 2 ^ e.toNat ∧
        4 * (n * 2 ^ (-e).toNat) ≠ 4 * (m * 2 ^ e.toNat) + 2 * 2 ^ e.toNat) := by
  have unit := h.unit_le
  have range : e > -1074 := Int.lt_of_lt_of_le (by decide) h.above
  have gap : (if m = 2 ^ 52 then 1 else 2) * 2 ^ e.toNat ≤ 2 * 2 ^ e.toNat :=
    Nat.mul_le_mul_right _ (by split <;> decide)
  unfold Interval.of Interval.contains at inside
  dsimp only at inside
  rw [Int.neg_zero, Int.toNat_zero] at inside
  simp only [show pow10 0 = 1 from rfl, pow2_eq, Nat.mul_one, range, and_true, Nat.sub_mul, Nat.add_mul] at inside
  rw [show n * (4 * 2 ^ (-e).toNat) = 4 * (n * 2 ^ (-e).toNat) by ring, Nat.mul_assoc 4 m] at inside
  generalize (if m = 2 ^ 52 then 1 else 2) * 2 ^ e.toNat = g at inside gap ⊢
  split at inside
  · next even =>
    rw [Bool.and_eq_true, decide_eq_true_eq, decide_eq_true_eq] at inside
    rw [beq_iff_eq] at even
    exact ⟨by omega, inside.2, fun odd => by omega⟩
  · rw [Bool.and_eq_true, decide_eq_true_eq, decide_eq_true_eq] at inside
    exact ⟨by omega, by omega, fun _ => ⟨by omega, by omega⟩⟩

/-- The integer that a whole number is lies in its interval. -/
theorem contains_value {v : Nat} (value : v * 2 ^ (-e).toNat = m * 2 ^ e.toNat) :
    (Interval.of m e).contains v 0 = true := by
  have positive : 0 < 2 ^ e.toNat := by positivity
  exact h.contains_of_near (by omega) (by omega)

theorem pos_of_contains {n : Nat} (inside : (Interval.of m e).contains n 0 = true) : 0 < n := by
  obtain ⟨low, -⟩ := h.between_of_contains inside
  have unit := h.unit_le
  have positive : 0 < 2 ^ e.toNat := by positivity
  rcases Nat.eq_zero_or_pos n with rfl | pos
  · split at low <;> omega
  · exact pos

theorem le_of_contains {n : Nat} (inside : (Interval.of m e).contains n 0 = true) : n ≤ 2 ^ (53 + e.toNat) := by
  obtain ⟨-, high, -⟩ := h.between_of_contains inside
  have unit := h.le_unit
  have scaled : n * 1 ≤ n * 2 ^ (-e).toNat := Nat.mul_le_mul_left n Nat.one_le_two_pow
  rw [Nat.pow_add]
  omega

/-- Below `2 ^ 53` only one integer lies in an interval. -/
theorem eq_of_contains {n k : Nat} (short : e ≤ 0) (hn : (Interval.of m e).contains n 0 = true)
    (hk : (Interval.of m e).contains k 0 = true) : n = k := by
  have scaled {n : Nat} (inside : (Interval.of m e).contains n 0 = true) : n * 2 ^ (-e).toNat = m := by
    obtain ⟨low, high, -⟩ := h.between_of_contains inside
    rw [show e.toNat = 0 by omega, Nat.pow_zero] at low high
    split at low <;> omega
  exact Nat.mul_right_cancel (by positivity : 0 < 2 ^ (-e).toNat) (by rw [scaled hn, scaled hk])

/-! ### Rounding -/

/-- Below a power of two an integer of the interval has one bit less, and rounding carries into the power. -/
theorem ofRatio?_below {n : Nat} (inside : (Interval.of m e).contains n 0 = true)
    (less : n * 2 ^ (-e).toNat < 2 ^ 52 * 2 ^ e.toNat) : ofRatio? n 1 = some (compose m e) := by
  obtain ⟨low, -⟩ := h.between_of_contains inside
  have pos := h.pos_of_contains inside
  have bound := h.below
  have power : m = 2 ^ 52 := by
    by_contra other
    have further : (2 ^ 52 + 1) * 2 ^ e.toNat ≤ m * 2 ^ e.toNat :=
      Nat.mul_le_mul_right _ (by have := h.least; omega)
    rw [if_neg other] at low
    omega
  rw [if_pos power, power] at low
  have length : (n.log2 : Int) = (51 : Nat) + e := log2_between (by omega) (by omega)
  have whole : 1 ≤ e := by
    by_contra fraction
    have unscaled : e.toNat = 0 := by omega
    rw [unscaled] at low less
    omega
  obtain ⟨k, rfl⟩ : ∃ k : Nat, e = k + 1 := ⟨(e - 1).toNat, by omega⟩
  have scale : scaleOf n 1 = k := by rw [scaleOf_one pos]; omega
  have carried := ofRatio?_of_carried pos scale ?_ (by omega)
  · rw [carried, power]
  · rw [show ((k : Int) + 1).toNat = k + 1 by omega, show (-((k : Int) + 1)).toNat = 0 by omega,
      Nat.pow_succ] at low less
    rw [roundScaled, scaled_eq, Int.toNat_natCast, show (-(k : Int)).toNat = 0 by omega, Nat.one_mul]
    exact roundDiv_eq (by omega) (by omega) (fun odd => absurd odd (by decide)) (by positivity)

/-- An integer in the interval of a whole number is rounded to it. -/
theorem ofRatio?_of_contains {n : Nat} (inside : (Interval.of m e).contains n 0 = true) :
    ofRatio? n 1 = some (compose m e) := by
  rcases Nat.lt_or_ge (n * 2 ^ (-e).toNat) (2 ^ 52 * 2 ^ e.toNat) with less | full
  · exact h.ofRatio?_below inside less
  · obtain ⟨low, high, odd⟩ := h.between_of_contains inside
    have half : 4 * (m * 2 ^ e.toNat) ≤ 4 * (n * 2 ^ (-e).toNat) + 2 * 2 ^ e.toNat := by
      split at low <;> omega
    have unit := h.le_unit
    have pos := h.pos_of_contains inside
    have positive : 0 < 2 ^ e.toNat := by positivity
    have length : (n.log2 : Int) = (52 : Nat) + e := log2_between full (by omega)
    have scale : scaleOf n 1 = e := by rw [scaleOf_one pos]; omega
    refine ofRatio?_of_rounded pos scale ?_ h.least h.small h.below
    rw [roundScaled, scaled_eq, Nat.one_mul]
    refine roundDiv_eq (by omega) (by omega) (fun h => ?_) positive
    obtain ⟨low, high⟩ := odd h
    exact ⟨by omega, by omega⟩

end Whole

theorem le_roundScaled_one {n : Nat} (pos : 0 < n) : 2 ^ 52 ≤ roundScaled n 1 (scaleOf n 1) := by
  rw [roundScaled, scaled_eq, scaleOf_one pos, Nat.one_mul]
  refine Nat.le_trans ((Nat.le_div_iff_mul_le (by positivity)).2 ?_) (le_roundDiv _ _)
  calc 2 ^ 52 * 2 ^ ((n.log2 : Int) - 52).toNat
      = 2 ^ n.log2 * 2 ^ (-((n.log2 : Int) - 52)).toNat := by
        rw [← Nat.pow_add, ← Nat.pow_add]
        congr 1
        omega
    _ ≤ n * 2 ^ (-((n.log2 : Int) - 52)).toNat := Nat.mul_le_mul_right _ (Nat.log2_self_le (Nat.ne_of_gt pos))

/-- An integer scaled up stays a multiple of the scale. -/
theorem dvd_roundScaled_one (n : Nat) (e : Int) : 2 ^ (-e).toNat ∣ roundScaled n 1 e := by
  rw [roundScaled]
  split
  · next scaled =>
    rw [show (-e).toNat = 0 by omega]
    exact Nat.one_dvd _
  · rw [pow2_eq, roundDiv_eq (m := n * 2 ^ (-e).toNat) (by omega) (by omega) (by omega) (by decide)]
    exact Nat.dvd_mul_left _ _

/-- An integer is rounded to a whole number, or it is beyond all finite ones. -/
theorem exists_whole_of_ofRatio? {n : Nat} {x : Float} (pos : 0 < n) (h : ofRatio? n 1 = some x) :
    ∃ m e, Whole m e ∧ x = compose m e := by
  have scale := scaleOf_one pos
  obtain ⟨m, e, parts, whole⟩ : ∃ m e, (if roundScaled n 1 (scaleOf n 1) = pow2 53
      then (pow2 52, scaleOf n 1 + 1) else (roundScaled n 1 (scaleOf n 1), scaleOf n 1)) = (m, e) ∧
      (e ≤ 971 → Whole m e) := by
    split
    · exact ⟨_, _, rfl, fun below =>
        ⟨Nat.le_refl _, by decide, by omega, below, Nat.pow_dvd_pow 2 (by omega)⟩⟩
    · next other =>
      have fits := Nat.lt_of_le_of_ne (roundScaled_scaleOf_le (by decide)) other
      exact ⟨_, _, rfl, fun below => ⟨le_roundScaled_one pos, fits, by omega, below, dvd_roundScaled_one n _⟩⟩
  unfold ofRatio? at h
  rw [if_neg (Nat.ne_of_gt pos)] at h
  dsimp only at h
  rw [parts] at h
  dsimp only at h
  split at h
  · cases h
  · next fits =>
    have whole := whole (Int.not_lt.1 fits)
    have normal : ¬ m < pow2 52 := Nat.not_lt.2 whole.least
    rw [if_neg normal] at h
    cases h
    exact ⟨m, e, whole, rfl⟩

/-! ## Fractions -/

theorem ofScaled_units {v : Nat} {x : Float} (negative : Bool) (pos : 0 < v) (short : v.log2 ≤ 1100)
    (rounded : ofRatio? v 1 = some x) : ofScaled negative v 0 = withSign negative x := by
  have unit : v * pow2 (0 : Int).toNat = v := Nat.mul_one v
  unfold ofScaled
  rw [if_neg (Nat.ne_of_gt pos)]
  dsimp only
  rw [if_neg (by omega), if_neg (by omega), if_pos (by decide), unit, rounded]

/-- A whole number has no fraction. -/
theorem Whole.truncate_compose {m : Nat} {e : Int} (h : Whole m e) (negative : Bool) :
    truncate (withSign negative (compose m e)) = withSign negative (compose m e) := by
  unfold truncate
  rw [h.view_compose]
  dsimp only
  split
  · rfl
  · next fraction =>
    obtain ⟨v, value, length, pos⟩ := h.exists_value
    have unscaled : e.toNat = 0 := by omega
    have integer : m / pow2 (-e).toNat = v := by
      rw [pow2_eq, ← Nat.mul_one m, ← Nat.pow_zero 2, ← unscaled, ← value]
      exact Nat.mul_div_cancel _ (by positivity)
    rw [integer]
    exact ofScaled_units negative pos (by omega) (h.ofRatio?_of_contains (h.contains_value value))

/-- A finite number without its fraction is zero or a whole number. -/
theorem truncate_finite {x : Float} (finite : isFinite x = true) :
    (∃ negative, truncate x = withSign negative (Float.ofBits 0)) ∨
      ∃ negative m e, Whole m e ∧ view (truncate x) = .finite negative m e := by
  unfold isFinite at finite
  split at finite
  · next negative m e parts =>
    obtain ⟨small, least, below, normal⟩ := bounds_of_view parts
    unfold truncate
    rw [parts]
    dsimp only
    split
    · next whole =>
      have unit : 2 ^ (-e).toNat ∣ m := by
        rw [show (-e).toNat = 0 by omega]
        exact Nat.one_dvd m
      exact .inr ⟨negative, m, e, ⟨normal (by omega), small, by omega, below, unit⟩, parts⟩
    · have size : m / pow2 (-e).toNat < 2 ^ 53 := Nat.lt_of_le_of_lt (Nat.div_le_self _ _) small
      rcases Nat.eq_zero_or_pos (m / pow2 (-e).toNat) with zero | pos
      · rw [zero]
        exact .inl ⟨negative, rfl⟩
      · obtain ⟨n, f, whole, -, value⟩ := exists_whole_of_small pos size
        have bits := (Nat.log2_lt (Nat.ne_of_gt pos)).2 size
        rw [ofScaled_units negative pos (by omega) (whole.ofRatio?_of_contains (whole.contains_value value))]
        exact .inr ⟨negative, n, f, whole, whole.view_compose negative⟩
  · cases finite

end Gapscript.Number
