import Gapscript.Number.Writing
import Gapscript.Proofs.Number.Rounding
import Gapscript.Proofs.Reading.Literal
import Mathlib

/-!
# The text of a whole number

The shortest decimal of a whole number has its last digit in front of the point, since the number itself is met
among the decimals that end there. So a whole number is written positionally as an integer of its interval
(`write_whole`), which below `2 ^ 53` is the number itself, and this text is read back as the number
(`read?_of_contains`).
-/

namespace Gapscript.Number

/-! ## Grids -/

namespace Interval

/-- An integer that ends in zeros. -/
theorem contains_natCast (i : Interval) (n k : Nat) : i.contains n k = i.contains (n * 10 ^ k) 0 := by
  have unscaled : (-(k : Int)).toNat = 0 := by omega
  unfold contains
  dsimp only
  rw [unscaled, Int.toNat_natCast, Int.neg_zero, Int.toNat_zero]
  simp only [show pow10 0 = 1 from rfl, Nat.mul_one]
  rfl

theorem contains_of_onGrid {i : Interval} {k : Int} {n : Nat} (h : i.onGrid k = some n) : i.contains n k = true := by
  unfold onGrid at h
  dsimp only at h
  split at h
  · next hit =>
    cases h
    exact hit
  · split at h
    · next hit =>
      cases h
      exact hit
    · split at h
      · next hit =>
        cases h
        exact hit
      · cases h

/-- The nearest decimal is taken where it lies in the interval. -/
theorem onGrid_nearest {i : Interval} {n k : Nat} (nearest : roundDiv i.value (i.denominator * 10 ^ k) = n)
    (inside : i.contains (n * 10 ^ k) 0 = true) : i.onGrid k = some n := by
  have unscaled : i.value * pow10 (-(k : Int)).toNat = i.value := by
    rw [show (-(k : Int)).toNat = 0 by omega]
    exact Nat.mul_one _
  unfold onGrid
  dsimp only
  rw [unscaled, Int.toNat_natCast, show pow10 k = 10 ^ k from rfl, nearest, contains_natCast, if_pos inside]

/-- The search ends where a grid has a decimal of the interval, at the latest. -/
theorem search_of_onGrid {i : Interval} {magnitude : Int} {fuel digits d n : Nat}
    (hit : i.onGrid (magnitude - d) = some n) (first : digits ≤ d) (last : d < digits + fuel) :
    ∃ n d' : Nat, d' ≤ d ∧ i.search magnitude fuel digits = (n, magnitude - d') ∧
      i.contains n (magnitude - d') = true := by
  induction fuel generalizing digits with
  | zero => omega
  | succ fuel ih =>
    rw [search]
    cases here : i.onGrid (magnitude - digits) with
    | some n => exact ⟨n, digits, first, rfl, contains_of_onGrid here⟩
    | none =>
      have later : digits ≠ d := by
        rintro rfl
        rw [here] at hit
        cases hit
      exact ih (by omega) (by omega)

/-! ## Magnitude -/

/-- The magnitude that is found is enough for the number, and the first one from the start. -/
theorem magnitudeFrom_spec {i : Interval} {v : Nat} (value : i.value = v * i.denominator) (hd : 0 < i.denominator)
    (pos : 0 < v) (fuel : Nat) (k : Int) (bound : v < 10 ^ (k + fuel).toNat) :
    v < 10 ^ (i.magnitudeFrom fuel k).toNat ∧
      (i.magnitudeFrom fuel k = k ∨ 10 ^ (i.magnitudeFrom fuel k - 1).toNat ≤ v) := by
  have fits (k : Int) : i.value * pow10 (-k).toNat < i.denominator * pow10 k.toNat ↔ v < 10 ^ k.toNat := by
    have powers (n : Nat) : pow10 n = 10 ^ n := rfl
    rw [value, powers, powers, Nat.mul_right_comm, Nat.mul_comm i.denominator, Nat.mul_lt_mul_right hd]
    rcases Int.le_total 0 k with h | h
    · have unit : (-k).toNat = 0 := by omega
      rw [unit, Nat.pow_zero, Nat.mul_one]
    · have unit : k.toNat = 0 := by omega
      have positive : 0 < 10 ^ (-k).toNat := by positivity
      rw [unit, Nat.pow_zero]
      constructor
      · intro h
        have := Nat.mul_pos pos positive
        omega
      · omega
  induction fuel generalizing k with
  | zero => exact ⟨by simpa [magnitudeFrom] using bound, .inl rfl⟩
  | succ fuel ih =>
    rw [magnitudeFrom]
    split
    · next enough => exact ⟨(fits k).1 enough, .inl rfl⟩
    · next short =>
      rw [fits, Nat.not_lt] at short
      obtain ⟨enough, first⟩ := ih (k + 1) (by rw [Int.add_assoc, Int.add_comm 1]; exact bound)
      refine ⟨enough, .inr ?_⟩
      rcases first with start | least
      · rw [start, Int.add_sub_cancel]
        exact short
      · exact least

/-- The guess at which the search for the magnitude starts is not above it, and no more than eight below. -/
theorem magnitude_guess {b : Nat} (h : b < 1024) :
    10 ^ ((b : Int) * 30103 / 100000 - 2).toNat ≤ 2 ^ b ∧
      2 ^ (b + 1) ≤ 10 ^ ((b : Int) * 30103 / 100000 - 2 + (8 : Nat)).toNat := by
  have all : ∀ b ∈ List.range 1024,
      10 ^ (b * 30103 / 100000 - 2) ≤ 2 ^ b ∧ 2 ^ (b + 1) ≤ 10 ^ (b * 30103 / 100000 + 6) := by
    decide +kernel
  have first : ((b : Int) * 30103 / 100000 - 2).toNat = b * 30103 / 100000 - 2 := by omega
  have last : ((b : Int) * 30103 / 100000 - 2 + (8 : Nat)).toNat = b * 30103 / 100000 + 6 := by omega
  rw [first, last]
  exact all b (List.mem_range.2 h)

end Interval

/-! ## Whole numbers -/

namespace Whole

variable {m : Nat} {e : Int} (h : Whole m e)

include h

/-- The lengths of the two numbers that a whole number is the quotient of. -/
theorem log2_value_sub :
    ((Interval.of m e).value.log2 : Int) - ((Interval.of m e).denominator.log2 : Int) = 52 + e := by
  have above : (Interval.of m e).value.log2 = 54 + e.toNat := by
    have low := h.unit_le
    have high := h.le_unit
    have positive : 0 < 2 ^ e.toNat := by positivity
    show (4 * m * 2 ^ e.toNat).log2 = _
    rw [Nat.mul_assoc]
    refine (Nat.log2_eq_iff (by omega)).2 ⟨?_, ?_⟩
    · rw [Nat.pow_add]
      omega
    · rw [Nat.pow_succ, Nat.pow_add]
      omega
  have below : (Interval.of m e).denominator.log2 = 2 + (-e).toNat := by
    show (2 ^ 2 * 2 ^ (-e).toNat).log2 = _
    rw [← Nat.pow_add, Nat.log2_two_pow]
  rw [above, below]
  omega

variable {v : Nat} (value : v * 2 ^ (-e).toNat = m * 2 ^ e.toNat)

include value

/-- The number of digits in front of the point. -/
theorem magnitude_spec (length : (v.log2 : Int) = 52 + e) (pos : 0 < v) :
    v < 10 ^ (Interval.of m e).magnitude.toNat ∧ 10 ^ ((Interval.of m e).magnitude - 1).toNat ≤ v := by
  have scaled : (Interval.of m e).value = v * (Interval.of m e).denominator := by
    show 4 * m * 2 ^ e.toNat = v * (4 * 2 ^ (-e).toNat)
    rw [Nat.mul_assoc, ← value]
    ring
  have guess := Interval.magnitude_guess (b := v.log2) (by have := h.below; omega)
  have bound := Interval.magnitudeFrom_spec (i := Interval.of m e) scaled (by show 0 < 4 * 2 ^ _; positivity) pos 8
    ((v.log2 : Int) * 30103 / 100000 - 2) (Nat.lt_of_lt_of_le Nat.lt_log2_self guess.2)
  unfold Interval.magnitude
  rw [h.log2_value_sub, ← length]
  refine ⟨bound.1, bound.2.elim (fun start => ?_) id⟩
  rw [start] at bound
  exact absurd (Nat.lt_of_lt_of_le bound.1 guess.1) (Nat.not_lt.2 (Nat.log2_self_le (Nat.ne_of_gt pos)))

/-- The number itself is met where a decimal ends at the point. -/
theorem onGrid_units : (Interval.of m e).onGrid (0 : Nat) = some v := by
  refine Interval.onGrid_nearest ?_ ?_
  · show roundDiv (4 * m * 2 ^ e.toNat) (4 * 2 ^ (-e).toNat * 1) = v
    have unit : 0 < 4 * 2 ^ (-e).toNat * 1 := by positivity
    rw [Nat.mul_assoc, ← value, show 4 * (v * 2 ^ (-e).toNat) = v * (4 * 2 ^ (-e).toNat * 1) by ring]
    exact roundDiv_eq (by omega) (by omega) (fun _ => by omega) unit
  · rw [Nat.pow_zero, Nat.mul_one]
    exact h.contains_value value

/-- With eighteen digits the decimals are so close that the nearest one lies in the interval. -/
theorem onGrid_tens {k : Nat} (long : 10 ^ (k + 17) ≤ v) : ∃ n, (Interval.of m e).onGrid k = some n := by
  have spacing : 2 * (2 ^ (-e).toNat * 10 ^ k) < 2 ^ e.toNat := by
    have high := h.le_unit
    have low : 10 ^ (k + 17) * 2 ^ (-e).toNat ≤ m * 2 ^ e.toNat := by
      rw [← value]
      exact Nat.mul_le_mul_right _ long
    have positive : 0 < 2 ^ e.toNat := by positivity
    rw [Nat.pow_add, show 10 ^ k * 10 ^ 17 * 2 ^ (-e).toNat = 10 ^ 17 * (2 ^ (-e).toNat * 10 ^ k) by ring] at low
    omega
  obtain ⟨low, high⟩ := roundDiv_near (n := (Interval.of m e).value)
    (d := (Interval.of m e).denominator * 10 ^ k) (by show 0 < 4 * 2 ^ _ * 10 ^ k; positivity)
  change 2 * (4 * m * 2 ^ e.toNat) ≤ 2 * (_ * (4 * 2 ^ (-e).toNat * 10 ^ k)) + 4 * 2 ^ (-e).toNat * 10 ^ k at low
  change 2 * (_ * (4 * 2 ^ (-e).toNat * 10 ^ k)) ≤ 2 * (4 * m * 2 ^ e.toNat) + 4 * 2 ^ (-e).toNat * 10 ^ k at high
  generalize nearest : roundDiv (Interval.of m e).value ((Interval.of m e).denominator * 10 ^ k) = n at low high
  refine ⟨n, Interval.onGrid_nearest nearest ?_⟩
  have unit : n * (4 * 2 ^ (-e).toNat * 10 ^ k) = 4 * (n * 10 ^ k * 2 ^ (-e).toNat) := by ring
  rw [unit, Nat.mul_assoc 4, Nat.mul_assoc 4] at low high
  exact h.contains_of_near (by omega) (by omega)

/-- Among the first eighteen grids one that ends in front of the point has a decimal of the interval: the last
one, or before it the one that ends at the point. -/
theorem exists_onGrid (length : (v.log2 : Int) = 52 + e) (pos : 0 < v) :
    ∃ d n : Nat, 1 ≤ d ∧ d < 1 + 18 ∧ d ≤ (Interval.of m e).magnitude ∧
      (Interval.of m e).onGrid ((Interval.of m e).magnitude - d) = some n := by
  obtain ⟨enough, first⟩ := h.magnitude_spec value length pos
  generalize (Interval.of m e).magnitude = magnitude at enough first ⊢
  have some_digit : 1 ≤ magnitude.toNat := by
    by_contra none_
    rw [show magnitude.toNat = 0 by omega] at enough
    omega
  by_cases short : magnitude.toNat ≤ 18
  · refine ⟨magnitude.toNat, v, some_digit, by omega, by omega, ?_⟩
    rw [show magnitude - magnitude.toNat = (0 : Nat) by omega]
    exact h.onGrid_units value
  · obtain ⟨k, rfl⟩ : ∃ k : Nat, magnitude = k + 18 := ⟨(magnitude - 18).toNat, by omega⟩
    rw [show ((k : Int) + 18 - 1).toNat = k + 17 by omega] at first
    obtain ⟨n, hit⟩ := h.onGrid_tens value first
    refine ⟨18, n, by decide, by decide, by omega, ?_⟩
    rw [show (k : Int) + 18 - (18 : Nat) = k by omega]
    exact hit

omit value in
/-- The search for the shortest decimal ends with an integer. -/
theorem search_spec :
    ∃ n k : Nat, (Interval.of m e).search (Interval.of m e).magnitude 18 1 = (n, (k : Int)) ∧
      (Interval.of m e).contains (n * 10 ^ k) 0 = true := by
  obtain ⟨v, value, length, pos⟩ := h.exists_value
  obtain ⟨d, n, some_digit, last, whole, hit⟩ := h.exists_onGrid value length pos
  obtain ⟨n, d', le, found, inside⟩ := Interval.search_of_onGrid hit some_digit last
  obtain ⟨k, place⟩ : ∃ k : Nat, (Interval.of m e).magnitude - d' = k :=
    ⟨((Interval.of m e).magnitude - d').toNat, by omega⟩
  rw [place] at found inside
  exact ⟨n, k, found, by rw [← Interval.contains_natCast, inside]⟩

end Whole

/-! ## Digits -/

theorem toDigits_zeros {n : Nat} (pos : 0 < n) (k : Nat) :
    Nat.toDigits 10 (n * 10 ^ k) = Nat.toDigits 10 n ++ List.replicate k '0' := by
  induction k with
  | zero => simp
  | succ k ih =>
    have positive : 0 < n * 10 ^ k := by positivity
    have shifted : n * 10 ^ (k + 1) = 10 * (n * 10 ^ k) + 0 := by ring
    rw [shifted, ← Nat.toDigits_append_toDigits (by decide) positive (by decide), ih, List.append_assoc,
      List.replicate_succ']
    rfl

/-- The zeros at the end are left out. -/
theorem exists_significant (n : Nat) :
    ∃ z, Nat.toDigits 10 n = significant n ++ List.replicate z '0' := by
  have cut := List.takeWhile_append_dropWhile (p := (· == '0')) (l := (Nat.toDigits 10 n).reverse)
  have zeros : (Nat.toDigits 10 n).reverse.takeWhile (· == '0') =
      List.replicate ((Nat.toDigits 10 n).reverse.takeWhile (· == '0')).length '0' :=
    List.eq_replicate_iff.2 ⟨rfl, fun c hc => beq_iff_eq.1 (List.all_eq_true.1 List.all_takeWhile c hc)⟩
  refine ⟨((Nat.toDigits 10 n).reverse.takeWhile (· == '0')).length, ?_⟩
  rw [significant, ← List.reverse_replicate, ← zeros, ← List.reverse_append, cut, List.reverse_reverse]

theorem ofDigits_replicate_zero (z : Nat) : ofDigits (List.replicate z '0') = 0 := by
  induction z with
  | zero => rfl
  | succ z ih => exact ih

theorem significant_ne_nil {n : Nat} (pos : 0 < n) : significant n ≠ [] := by
  intro none_
  obtain ⟨z, zeros⟩ := exists_significant n
  rw [none_, List.nil_append] at zeros
  have value := Lexical.ofDigits_toDigits n
  rw [zeros, ofDigits_replicate_zero] at value
  omega

/-- A decimal that ends in front of the point is written as the integer that it is. -/
theorem positional_significant {n : Nat} (pos : 0 < n) (k : Nat) :
    Decimal.positional ⟨significant n, (Nat.toDigits 10 n).length + (k : Int)⟩ = Nat.toDigits 10 (n * 10 ^ k) := by
  obtain ⟨z, zeros⟩ := exists_significant n
  have some_digit : (significant n).isEmpty = false := by simpa using significant_ne_nil pos
  have length := congrArg List.length zeros
  rw [List.length_append, List.length_replicate] at length
  have positive : 0 < (significant n).length := List.length_pos_iff.2 (significant_ne_nil pos)
  unfold Decimal.positional
  dsimp only
  rw [some_digit, if_neg Bool.false_ne_true, if_neg (by omega), if_pos (by omega), toDigits_zeros pos, zeros,
    List.append_assoc, List.replicate_append_replicate]
  congr 2
  rw [List.length_append, List.length_replicate]
  omega

/-! ## Text -/

/-- The sign in front of a number. -/
def signOf (negative : Bool) : Sign := if negative then .minus else .none

/-- A whole number is written with the digits of an integer of its interval. -/
theorem write_whole {x : Float} {negative : Bool} {m : Nat} {e : Int} (parts : view x = .finite negative m e)
    (h : Whole m e) :
    ∃ n, (Interval.of m e).contains n 0 = true ∧
      (write key x).toList = (signOf negative).text ++ Nat.toDigits 10 n := by
  obtain ⟨n, k, found, inside⟩ := h.search_spec
  have pos : 0 < n := Nat.pos_of_mul_pos_right (h.pos_of_contains inside)
  have length : (Nat.toDigits 10 n).length + k ≤ 1100 := by
    have digits := congrArg List.length (toDigits_zeros pos k)
    rw [List.length_append, List.length_replicate] at digits
    rw [← digits, Nat.length_toDigits_le_iff (by decide) (by decide)]
    calc n * 10 ^ k
        ≤ 2 ^ (53 + e.toNat) := h.le_of_contains inside
      _ ≤ 10 ^ (53 + e.toNat) := Nat.pow_le_pow_left (by decide) _
      _ < 10 ^ 1100 := Nat.pow_lt_pow_right (by decide) (by have := h.below; omega)
  have some_digit : 0 < (Nat.toDigits 10 n).length := Nat.length_toDigits_pos
  have other : m ≠ 0 := by have := h.least; omega
  have decimal : shortest m e = ⟨significant n, (Nat.toDigits 10 n).length + (k : Int)⟩ := by
    unfold shortest
    rw [if_neg other]
    dsimp only
    rw [found]
  have range : key.least ≤ ((Nat.toDigits 10 n).length + k : Int) - 1 ∧
      ((Nat.toDigits 10 n).length + k : Int) - 1 < key.limit := by
    show (-1100 : Int) ≤ _ ∧ _ < (1100 : Int)
    omega
  refine ⟨n * 10 ^ k, inside, ?_⟩
  unfold write
  rw [parts]
  dsimp only
  rw [decimal, String.toList_ofList]
  dsimp only
  rw [if_pos (c := m = 0 ∨ _) (.inr range), positional_significant pos]
  cases negative with
  | false => rfl
  | true => simp [other, signOf, Sign.text]

/-! ## Text read back -/

theorem digit?_of_isDigit {c : Char} (h : c.isDigit = true) : digit? 10 c = some (c.toNat - 48) := by
  have digits : ∀ n < 58, 48 ≤ n → digit? 10 (Char.ofNat n) = some (n - 48) := by decide
  simp only [Char.isDigit, Bool.and_eq_true, decide_eq_true_eq] at h
  have digit := digits c.toNat (Nat.lt_succ_of_le h.2) h.1
  rwa [Char.ofNat_toNat] at digit

theorem isDigit_toDigits {n : Nat} : ∀ c ∈ Nat.toDigits 10 n, IsDigit 10 c := by
  intro c hc
  rw [IsDigit, digit?_of_isDigit (Lexical.isDigit_of_mem_toDigits hc)]
  rfl

theorem valueOf_toDigits (n : Nat) : valueOf 10 (Nat.toDigits 10 n) = n := by
  have same : valueOf 10 (Nat.toDigits 10 n) = ofDigits (Nat.toDigits 10 n) := by
    unfold valueOf ofDigits
    refine List.foldl_ext _ _ _ fun v c hc => ?_
    rw [digit?_of_isDigit (Lexical.isDigit_of_mem_toDigits hc), Option.getD_some]
  rw [same, Lexical.ofDigits_toDigits]

/-- Digits are read as the number nearest to the integer that they spell. -/
theorem readMagnitude_digits {ds : List Char} (digits : ∀ c ∈ ds, IsDigit 10 c) (some_digit : ds ≠ []) :
    readMagnitude ds = ofDecimal? (valueOf 10 ds) 0 := by
  have whole : taken ds = (false, ds) := by
    unfold taken
    split
    · next b d u =>
      refine if_neg fun base => ?_
      have digit := digits b (by simp)
      rw [IsDigit, digit?, base] at digit
      exact absurd digit (by decide)
    · rfl
  have ok : groupingOk false .start ds = true := by
    refine (groupingOk_start_iff _ _).2 ?_
    rintro a b rfl
    exact absurd (digits '_' (by simp)) (by decide)
  have proper : Numeral.Proper ⟨ds, none, none⟩ false :=
    { digits := by simpa [Numeral.digits, Numeral.places, baseOf] using digits
      some_digit := by simpa [Numeral.digits, Numeral.places] using some_digit
      exponent := by simp
      scaled := by simp }
  have body := readBody_text proper
  rw [show Numeral.text ⟨ds, none, none⟩ = ds by simp [Numeral.text, Numeral.mantissa, Numeral.tail]] at body
  have value : Numeral.value? ⟨ds, none, none⟩ false = ofDecimal? (valueOf 10 ds) 0 := by
    simp [Numeral.value?, Numeral.digits, Numeral.places, Numeral.power]
  rw [readMagnitude_eq, whole, ← value, ← body]
  cases read : readBody false ds with
  | none => exact ite_self none
  | some x => rw [wellGrouped_decimal read, if_pos ok]

/-- A sign and the digits of an integer are read as the number nearest to it, with that sign. -/
theorem read?_integer (sign : Sign) (n : Nat) :
    read? (sign.text ++ Nat.toDigits 10 n) = (ofDecimal? n 0).map (withSign sign.negative) := by
  have magnitude := readMagnitude_digits (isDigit_toDigits (n := n)) Nat.toDigits_ne_nil
  have noWord : readWord sign.negative sign.isThere (Nat.toDigits 10 n) = none := by
    obtain ⟨c, ds, cons⟩ := List.exists_cons_of_ne_nil (Nat.toDigits_ne_nil (n := n) (b := 10))
    have digit := isDigit_toDigits (n := n) c (by simp [cons])
    rw [cons]
    cases word : readWord sign.negative sign.isThere (c :: ds) with
    | none => rfl
    | some x => exact absurd (.inl digit) (not_number_of_readWord word)
  rw [read?_sign (leads_of_digits isDigit_toDigits), noWord, magnitude, valueOf_toDigits]

/-- An integer is rounded where it is read, unless it is zero or too long for any finite number. -/
theorem ofDecimal?_units {n : Nat} (pos : 0 < n) :
    ofDecimal? n 0 = if decimalSize n ≤ 320 then ofRatio? n 1 else none := by
  have unit : n * pow10 (0 : Int).toNat = n := Nat.mul_one n
  have size : 0 ≤ decimalSize n := by
    unfold decimalSize
    omega
  unfold ofDecimal?
  rw [if_neg (Nat.ne_of_gt pos), Int.add_zero, unit]
  split
  · next long => rw [if_neg (Int.not_le.2 long)]
  · next short =>
    rw [if_neg (by omega), if_pos (by omega)]
    rfl

/-- The digits of an integer in the interval of a whole number are read as that number. -/
theorem read?_of_contains {m n : Nat} {e : Int} (h : Whole m e) (inside : (Interval.of m e).contains n 0 = true)
    (negative : Bool) :
    read? ((signOf negative).text ++ Nat.toDigits 10 n) = some (withSign negative (compose m e)) := by
  have pos := h.pos_of_contains inside
  have bits : n.log2 < 54 + e.toNat := by
    refine (Nat.log2_lt (Nat.ne_of_gt pos)).2 (Nat.lt_of_le_of_lt (h.le_of_contains inside) ?_)
    exact Nat.pow_lt_pow_right (by decide) (by omega)
  have short : decimalSize n ≤ 320 := by
    have := h.below
    unfold decimalSize
    omega
  have sign : (signOf negative).negative = negative := by cases negative <;> rfl
  rw [read?_integer, ofDecimal?_units pos, if_pos short, h.ofRatio?_of_contains inside, sign]
  rfl

end Gapscript.Number
