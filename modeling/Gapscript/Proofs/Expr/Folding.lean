import Gapscript.Expr.Fold

/-!
# What the fold keeps

The fold of an expression resolves operators until one tree is left. If a property holds of an operator
exactly if it holds of its operands, then it holds of that tree exactly if it held of every operand that was
read (`Fold.Balanced.headD_iff`), as long as there was an operand for every operator.
-/

namespace Gapscript

/-- The property holds of an operator exactly if it holds of its operands. -/
structure Expr.Operandwise (P : Expr → Prop) : Prop where
  unary : ∀ op e, P (.unary op e) ↔ P e
  binary : ∀ op l r, P (.binary op l r) ↔ P l ∧ P r

variable {P : Expr → Prop}

namespace Pending

/-- The operator takes two operands. -/
def isBinary : Pending → Bool
  | .unary .. => false
  | .binary .. => true

theorem forall_apply (operandwise : Expr.Operandwise P) (p : Pending) (es : List Expr) :
    (∀ e ∈ p.apply es, P e) ↔ ∀ e ∈ es, P e := by
  unfold apply
  split
  · rw [List.forall_mem_cons, List.forall_mem_cons, operandwise.unary]
  · simp only [List.forall_mem_cons, operandwise.binary]
    constructor
    · exact fun ⟨⟨left, right⟩, others⟩ => ⟨right, left, others⟩
    · exact fun ⟨right, left, others⟩ => ⟨⟨left, right⟩, others⟩
  · rfl

end Pending

namespace Fold

/-- There is one operand more than operators that take two. -/
def Balanced (f : Fold) : Prop := f.operands.length = f.pending.countP Pending.isBinary + 1

/-- The property holds of every operand. -/
def All (P : Expr → Prop) (f : Fold) : Prop := ∀ e ∈ f.operands, P e

variable {f : Fold}

theorem all_settle (operandwise : Expr.Operandwise P) (op : BinaryOp) (width : Nat) (es : List Expr)
    (ps : List Pending) : (settle op width es ps).All P ↔ ∀ e ∈ es, P e := by
  induction ps generalizing es with
  | nil => rfl
  | cons p ps ih =>
    rw [settle]
    split
    · rw [ih, Pending.forall_apply operandwise]
    · rfl

theorem all_pushBinary (operandwise : Expr.Operandwise P) (f : Fold) (op : BinaryOp) (width : Nat) :
    (f.pushBinary op width).All P ↔ f.All P := all_settle operandwise op width f.operands f.pending

theorem all_pushOperand (f : Fold) (runs : List UnaryRun) (e : Expr) :
    (f.pushOperand runs e).All P ↔ P e ∧ f.All P := List.forall_mem_cons

theorem all_finish (operandwise : Expr.Operandwise P) (f : Fold) : (∀ e ∈ f.finish, P e) ↔ f.All P := by
  obtain ⟨es, ps⟩ := f
  change (∀ e ∈ ps.foldl (fun es p => p.apply es) es, P e) ↔ ∀ e ∈ es, P e
  induction ps generalizing es with
  | nil => rfl
  | cons p ps ih => rw [List.foldl_cons, ih, Pending.forall_apply operandwise]

theorem balanced_apply {p : Pending} {ps : List Pending} {es : List Expr} (h : Balanced ⟨es, p :: ps⟩) :
    Balanced ⟨p.apply es, ps⟩ := by
  have counted : es.length = (p :: ps).countP Pending.isBinary + 1 := h
  change (p.apply es).length = ps.countP Pending.isBinary + 1
  cases p with
  | unary op width =>
    rw [List.countP_cons_of_neg Bool.false_ne_true] at counted
    cases es with
    | nil => cases counted
    | cons e es => exact counted
  | binary op width =>
    rw [List.countP_cons_of_pos rfl] at counted
    match es with
    | [] | [_] => simp at counted
    | r :: l :: es =>
      rw [List.length_cons, List.length_cons] at counted
      exact Nat.succ.inj counted

theorem balanced_settle (op : BinaryOp) (width : Nat) {es : List Expr} {ps : List Pending}
    (h : Balanced ⟨es, ps⟩) : (settle op width es ps).Balanced := by
  induction ps generalizing es with
  | nil => exact h
  | cons p ps ih =>
    rw [settle]
    split
    · exact ih (balanced_apply h)
    · exact h

theorem countP_pushOperand (f : Fold) (runs : List UnaryRun) (e : Expr) :
    (f.pushOperand runs e).pending.countP Pending.isBinary = f.pending.countP Pending.isBinary := by
  change (runs.foldl (fun ps r => .unary r.op r.width :: ps) f.pending).countP Pending.isBinary = _
  generalize f.pending = ps
  induction runs generalizing ps with
  | nil => rfl
  | cons r runs ih => rw [List.foldl_cons, ih, List.countP_cons_of_neg Bool.false_ne_true]

/-- An operator that takes two operands comes with one. -/
theorem Balanced.link (h : f.Balanced) (op : BinaryOp) (width : Nat) (runs : List UnaryRun) (e : Expr) :
    ((f.pushBinary op width).pushOperand runs e).Balanced := by
  have settled : (settle op width f.operands f.pending).Balanced := balanced_settle op width h
  rw [Balanced, countP_pushOperand]
  change (settle op width f.operands f.pending).operands.length + 1 = _
  rw [pushBinary, List.countP_cons_of_pos rfl, settled]

theorem balanced_operand (runs : List UnaryRun) (e : Expr) : (pushOperand {} runs e).Balanced := by
  rw [Balanced, countP_pushOperand]
  rfl

theorem Balanced.length_finish (h : f.Balanced) : f.finish.length = 1 := by
  obtain ⟨es, ps⟩ := f
  change (ps.foldl (fun es p => p.apply es) es).length = 1
  induction ps generalizing es with
  | nil => exact h
  | cons p ps ih => exact ih (p.apply es) (balanced_apply h)

/-- The tree that the fold ends with has all of the operands. -/
theorem Balanced.headD_iff (operandwise : Expr.Operandwise P) (h : f.Balanced) (e : Expr) :
    P (f.finish.headD e) ↔ f.All P := by
  obtain ⟨tree, single⟩ := List.length_eq_one_iff.1 h.length_finish
  rw [← all_finish operandwise, single, List.forall_mem_singleton, List.headD_cons]

end Fold

end Gapscript
