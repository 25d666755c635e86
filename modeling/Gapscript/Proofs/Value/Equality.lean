import Gapscript.Value.Comparison
import Mathlib

/-!
# Strict equality

Two values are the same if they have one type and one payload; NaN is the same as NaN, and objects,
functions and symbols are the same as themselves only. This is an equivalence, and strict equality is
what is left of it without NaN: NaN is the one value that is not strictly equal to itself.
-/

namespace Gapscript

/-! ## Numbers -/

namespace Number

variable {x y z : Float}

theorem not_isNaN_of_beq (h : (x == y) = true) : x.isNaN = false := by
  rw [Float.isNaN_eq_decide_eq_nan, decide_eq_false_iff_not]
  exact (Float.beq_iff_ne_nan_and_eq.1 h).1

theorem beq_self (h : x.isNaN = false) : (x == x) = true := by
  rw [Float.isNaN_eq_decide_eq_nan, decide_eq_false_iff_not] at h
  exact Float.beq_self_iff.2 h

theorem beq_symm (h : (x == y) = true) : (y == x) = true := by
  obtain ⟨hx, hy, same⟩ := Float.beq_iff_ne_nan_and_eq.1 h
  refine Float.beq_iff_ne_nan_and_eq.2 ⟨hy, hx, ?_⟩
  rcases same with rfl | ⟨zero, negative⟩ | ⟨negative, zero⟩
  · exact .inl rfl
  · exact .inr (.inr ⟨negative, zero⟩)
  · exact .inr (.inl ⟨zero, negative⟩)

theorem beq_trans (h : (x == y) = true) (k : (y == z) = true) : (x == z) = true := by
  obtain ⟨hx, -, same⟩ := Float.beq_iff_ne_nan_and_eq.1 h
  obtain ⟨-, hz, same'⟩ := Float.beq_iff_ne_nan_and_eq.1 k
  refine Float.beq_iff_ne_nan_and_eq.2 ⟨hx, hz, ?_⟩
  -- Only the two zeros are equal without being the same.
  rcases same with rfl | ⟨first, middle⟩ | ⟨first, middle⟩
  · exact same'
  · rcases same' with rfl | ⟨-, last⟩ | ⟨-, last⟩
    · exact .inr (.inl ⟨first, middle⟩)
    · exact .inr (.inl ⟨first, last⟩)
    · exact .inl (first.trans last.symm)
  · rcases same' with rfl | ⟨-, last⟩ | ⟨-, last⟩
    · exact .inr (.inr ⟨first, middle⟩)
    · exact .inl (first.trans last.symm)
    · exact .inr (.inr ⟨first, last⟩)

end Number

/-! ## Values -/

namespace Value

/-- The value is NaN. -/
def isNaN : Value → Bool
  | .number x => x.isNaN
  | _ => false

/-- Two values of one type and one payload. Numbers are compared by what they stand for, and NaN is the
same as NaN; functions and symbols are told apart by their identities. -/
inductive Same : Value → Value → Prop
  | refl (v : Value) : Same v v
  | number {x y : Float} (h : (x == y) = true) : Same (.number x) (.number y)
  | nan {x y : Float} (hx : x.isNaN = true) (hy : y.isNaN = true) : Same (.number x) (.number y)
  | symbol {a b : Symbol} (h : a.id = b.id) : Same (.symbol a) (.symbol b)
  | function {f g : FunctionRef} (h : f.id = g.id) : Same (.function f) (.function g)

variable {v w u : Value}

theorem Same.symm (h : v.Same w) : w.Same v := by
  cases h with
  | refl => exact .refl v
  | number h => exact .number (Number.beq_symm h)
  | nan hx hy => exact .nan hy hx
  | symbol h => exact .symbol h.symm
  | function h => exact .function h.symm

theorem Same.of_isNaN (hv : v.isNaN = true) (hw : w.isNaN = true) : v.Same w := by
  cases v with
  | number x =>
    cases w with
    | number y => exact .nan hv hw
    | _ => cases hw
  | _ => cases hv

/-- NaN is the same as NaN only. -/
theorem Same.isNaN (h : v.Same w) : v.isNaN = w.isNaN := by
  cases h with
  | number h =>
    rw [Value.isNaN, Value.isNaN, Number.not_isNaN_of_beq h, Number.not_isNaN_of_beq (Number.beq_symm h)]
  | nan hx hy => rw [Value.isNaN, Value.isNaN, hx, hy]
  | _ => rfl

theorem Same.trans (h : v.Same w) (k : w.Same u) : v.Same u := by
  have ordinary := h.isNaN
  have ordinary' := k.isNaN
  cases h with
  | refl => exact k
  | number h =>
    cases k with
    | refl => exact .number h
    | number k => exact .number (Number.beq_trans h k)
    | nan hy hz => exact .nan (ordinary.trans hy) hz
  | nan hx hy =>
    cases k with
    | refl => exact .nan hx hy
    | number k => exact .nan hx (ordinary'.symm.trans hy)
    | nan _ hz => exact .nan hx hz
  | symbol h =>
    cases k with
    | refl => exact .symbol h
    | symbol k => exact .symbol (h.trans k)
  | function h =>
    cases k with
    | refl => exact .function h
    | function k => exact .function (h.trans k)

/-- Strict equality is sameness without NaN. -/
theorem strictEq_iff : v.strictEq w = true ↔ v.Same w ∧ v.isNaN = false := by
  constructor
  · intro h
    cases v with
    | number x =>
      cases w with
      | number y => exact ⟨.number h, Number.not_isNaN_of_beq h⟩
      | _ => cases h
    | symbol a =>
      cases w with
      | symbol b => exact ⟨.symbol (eq_of_beq h), rfl⟩
      | _ => cases h
    | function f =>
      cases w with
      | function g => exact ⟨.function (eq_of_beq h), rfl⟩
      | _ => cases h
    | _ =>
      -- The payloads of the other types are equal themselves.
      cases w <;> first | exact ⟨.refl _, rfl⟩ | (cases eq_of_beq h; exact ⟨.refl _, rfl⟩) | cases h
  · rintro ⟨same, ordinary⟩
    cases same with
    | number h => exact h
    | nan hx =>
      rw [Value.isNaN, hx] at ordinary
      cases ordinary
    | symbol h => exact beq_iff_eq.2 h
    | function h => exact beq_iff_eq.2 h
    | refl =>
      cases v with
      | number x => exact Number.beq_self ordinary
      | _ => simp [strictEq]

end Value

end Gapscript
