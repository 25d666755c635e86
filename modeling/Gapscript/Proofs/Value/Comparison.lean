import Gapscript.Value.Arithmetic
import Gapscript.Proofs.Value.Equality

/-!
# Comparisons with their operands exchanged

A comparison says the same of two values when they change places and the operator is mirrored
(`binary_mirrored`): equality of either kind is symmetric, and an order is read from the other side.
Numbers are compared as their models are, so everything comes down to the order of two models.
-/

namespace Gapscript

open Float.Model

/-! ## Orders -/

namespace Number

/-- Two numbers taken apart, compared from the other side. -/
theorem compare_unpacked_swap (a b : UnpackedFloat) : b.compare a = (a.compare b).map Ordering.swap := by
  have size (m n : Nat) (e f : Int) :
      (compare f e).then (compare n m) = ((compare e f).then (compare m n)).swap := by
    rw [Ordering.swap_then, Int.compare_swap, Nat.compare_swap]
  cases a with
  | notANumber => cases b <;> rfl
  | infinity s =>
    cases b with
    | infinity t => cases s <;> cases t <;> rfl
    | _ => cases s <;> rfl
  | zero s =>
    cases b with
    | infinity t | finite t => cases t <;> rfl
    | _ => rfl
  | finite s m e =>
    cases b with
    | infinity t => cases t <;> rfl
    | finite t n f =>
      -- Numbers of one sign are compared by their exponents and then by their mantissas.
      cases s <;> cases t <;> simp only [UnpackedFloat.compare, Option.map_some, size m n e f] <;> rfl
    | _ => cases s <;> rfl

theorem lt_iff_compare (x y : Float) : x < y ↔ x.toModel.unpack.compare y.toModel.unpack = some .lt := by
  have opened : x < y ↔ decide (x.toModel.unpack.lt y.toModel.unpack = true) = true := Iff.rfl
  rw [opened, decide_eq_true_iff, UnpackedFloat.lt, beq_iff_eq]

theorem lt_asymm {x y : Float} (h : x < y) : ¬ y < x := by
  rw [lt_iff_compare] at h ⊢
  rw [compare_unpacked_swap, h]
  decide

end Number

namespace Heap

theorem orderNumbers_swap (x y : Float) : orderNumbers y x = (orderNumbers x y).swap := by
  unfold orderNumbers
  by_cases less : x < y
  · rw [if_neg (Number.lt_asymm less), if_pos less, if_pos less]
    rfl
  · by_cases greater : y < x
    · rw [if_pos greater, if_neg less, if_pos greater]
      rfl
    · have none_ : ¬ y > x := less
      have none' : ¬ x > y := greater
      rw [if_neg greater, if_neg less, if_neg none_, if_neg none']
      rfl

theorem orderTexts_swap (s t : String) : orderTexts t s = (orderTexts s t).swap := by
  unfold orderTexts
  by_cases less : s < t
  · rw [if_neg (String.lt_asymm less), if_pos less, if_pos less]
    rfl
  · by_cases greater : t < s
    · rw [if_pos greater, if_neg less, if_pos greater]
      rfl
    · rw [if_neg greater, if_neg less, if_neg greater, if_neg less]
      rfl

end Heap

/-! ## Operators -/

/-- The operator that says of two operands in the other order what this one says of them; only the orders
have another one. -/
def BinaryOp.mirrored : BinaryOp → BinaryOp
  | .less => .greater
  | .greater => .less
  | .lessEqual => .greaterEqual
  | .greaterEqual => .lessEqual
  | op => op

/-- The operator compares its operands. -/
def BinaryOp.compares : BinaryOp → Bool
  | .equal | .notEqual | .strictEqual | .strictNotEqual => true
  | .less | .greater | .lessEqual | .greaterEqual => true
  | _ => false

theorem Value.strictEq_comm (a b : Value) : a.strictEq b = b.strictEq a := by
  have turned (v w : Value) (h : v.strictEq w = true) : w.strictEq v = true := by
    obtain ⟨same, ordinary⟩ := Value.strictEq_iff.1 h
    exact Value.strictEq_iff.2 ⟨same.symm, same.isNaN.symm.trans ordinary⟩
  exact Bool.eq_iff_iff.2 ⟨turned a b, turned b a⟩

theorem Value.kind_of_strictEq {a b : Value} (h : a.strictEq b = true) : a.kind = b.kind := by
  cases (Value.strictEq_iff.1 h).1 <;> rfl

theorem Number.beq_comm (x y : Float) : (x == y) = (y == x) :=
  Bool.eq_iff_iff.2 ⟨Number.beq_symm, Number.beq_symm⟩

namespace Heap

/-- Coerced scalars of two types are equal from either side: a big integer is compared with the number that
the other one stands for, and there is at most one. -/
theorem looseEq_comm (h : Heap) (a b : Value) : h.looseEq a b = h.looseEq b a := by
  unfold looseEq
  by_cases kinds : a.kind = b.kind
  · rw [if_pos kinds, if_pos kinds.symm, Value.strictEq_comm]
  · rw [if_neg kinds, if_neg (Ne.symm kinds), Bool.or_comm b.isNullish, Bool.and_comm b.isNullish,
      Bool.or_comm b.isReference, Bool.and_comm b.isReference]
    split
    · rfl
    · split
      · split
        · rfl
        · exact BEq.comm
      · cases a with
        | bigint m =>
          cases b with
          | bigint n => exact absurd rfl kinds
          | _ => rfl
        | _ =>
          cases b with
          | bigint n => rfl
          | _ => exact Number.beq_comm _ _

theorem holds_mirrored (op : BinaryOp) (o : Ordering) : holds op.mirrored o.swap = holds op o := by
  cases op <;> cases o <;> rfl

/-- Orders are read from either side, and refuse the same operands. -/
theorem compareValues_mirrored (op : BinaryOp) (a b : Value) :
    compareValues op.mirrored b a = compareValues op a b := by
  have coerced : (if b.kind = .symbol || a.kind = .symbol then .error .symbolComparison
      else if b.toNumber.isNaN || a.toNumber.isNaN then .ok (.boolean false)
      else .ok (.boolean (holds op.mirrored (orderNumbers b.toNumber a.toNumber)))) =
      (if a.kind = .symbol || b.kind = .symbol then .error .symbolComparison
      else if a.toNumber.isNaN || b.toNumber.isNaN then .ok (.boolean false)
      else .ok (.boolean (holds op (orderNumbers a.toNumber b.toNumber))) : Except TypeFault Value) := by
    rw [Bool.or_comm (decide (b.kind = .symbol)), Bool.or_comm b.toNumber.isNaN, orderNumbers_swap, holds_mirrored]
  cases a with
  | string s =>
    cases b with
    | string t =>
      show Except.ok (Value.boolean (holds op.mirrored (orderTexts t s))) = _
      rw [orderTexts_swap, holds_mirrored]
      rfl
    | _ => exact coerced
  | bigint m =>
    cases b with
    | bigint n =>
      show Except.ok (Value.boolean (holds op.mirrored (compare n m))) = _
      rw [← Int.compare_swap m n, holds_mirrored]
      rfl
    | _ => exact coerced
  | _ => cases b <;> exact coerced

/-- Exchanging the operands of a comparison and mirroring its operator changes nothing. -/
theorem binary_mirrored (h : Heap) {op : BinaryOp} (compares : op.compares = true) (a b : Value) :
    h.binary op.mirrored b a = h.binary op a b := by
  cases op with
  | equal | notEqual =>
    unfold binary BinaryOp.mirrored
    rw [looseEq_comm]
  | strictEqual | strictNotEqual =>
    unfold binary BinaryOp.mirrored
    rw [Value.strictEq_comm]
  | less | greater | lessEqual | greaterEqual => exact compareValues_mirrored _ a b
  | add | sub | mul | div | mod | pow | and | or => cases compares

theorem looseEq_of_strictEq (h : Heap) {a b : Value} (strict : a.strictEq b = true) : h.looseEq a b = true := by
  unfold looseEq
  rw [if_pos (Value.kind_of_strictEq strict), strict]

end Heap

/-- Comparisons respect an exchange of their operands: the four equalities are symmetric, `<` is `>` and `<=` is
`>=` from the other side, with the same pairs refused, and what is strictly equal is equal. -/
theorem comparisons_exchanged (h : Heap) (a b : Value) :
    (∀ op ∈ [BinaryOp.equal, .notEqual, .strictEqual, .strictNotEqual], h.binary op a b = h.binary op b a) ∧
    h.binary .less a b = h.binary .greater b a ∧
    h.binary .lessEqual a b = h.binary .greaterEqual b a ∧
    (h.binary .strictEqual a b = .ok (.boolean true) → h.binary .equal a b = .ok (.boolean true)) := by
  refine ⟨?_, ?_, ?_, ?_⟩
  · intro op equality
    have symmetric : op.mirrored = op ∧ op.compares = true := by
      revert op
      decide
    rw [← h.binary_mirrored symmetric.2, symmetric.1]
  · exact (h.binary_mirrored rfl a b).symm
  · exact (h.binary_mirrored rfl a b).symm
  · intro strict
    have same : a.strictEq b = true := by simpa [Heap.binary] using strict
    rw [Heap.binary, h.looseEq_of_strictEq same]

/-- The two zeros are strictly equal and so equal, and a symbol is refused on either side of an order. -/
theorem comparisons_exchanged_zero :
    Heap.binary {} .equal (.number 0) (.number (-0)) = .ok (.boolean true) ∧
    Heap.binary {} .strictEqual (.number (-0)) (.number 0) = .ok (.boolean true) ∧
    Heap.binary {} .less (.symbol ⟨0, "s"⟩) (.number 0) = .error .symbolComparison ∧
    Heap.binary {} .greater (.number 0) (.symbol ⟨0, "s"⟩) = .error .symbolComparison := by
  have strict : Heap.binary {} .strictEqual (.number 0) (.number (-0)) = .ok (.boolean true) := rfl
  have refused : Heap.binary {} .less (.symbol ⟨0, "s"⟩) (.number 0) = .error .symbolComparison := rfl
  refine ⟨(comparisons_exchanged _ _ _).2.2.2 strict, ?_, refused, ?_⟩
  · rw [← (comparisons_exchanged _ _ _).1 .strictEqual (by decide), strict]
  · rw [← (comparisons_exchanged _ _ _).2.1, refused]

end Gapscript
