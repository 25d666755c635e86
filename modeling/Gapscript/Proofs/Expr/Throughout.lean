import Gapscript.Proofs.Expr.Folding
import Gapscript.Proofs.Reading.Plain

/-!
# Properties of every base in a tree

A property holds throughout a tree if it holds of each base in it, at any depth: in the operands of
operators, in the arguments of calls, in arrays and objects, and in accessors (`Expr.throughout_iff`).
-/

namespace Gapscript

mutual

/-- The property holds of every base in the tree. -/
def Expr.Throughout (P : Base → Prop) : Expr → Prop
  | .atom b accs _ => b.Throughout P ∧ Accessor.AllThroughout P accs
  | .unary _ e => e.Throughout P
  | .binary _ l r => l.Throughout P ∧ r.Throughout P

/-- The property holds of the base and of every base in it. -/
def Base.Throughout (P : Base → Prop) : Base → Prop
  | .literal v implicit => P (.literal v implicit)
  | .name name v => P (.name name v)
  | .call name fn args pos => P (.call name fn args pos) ∧ Expr.AllThroughout P args
  | .object keys values => P (.object keys values) ∧ Expr.AllThroughout P values
  | .array elements => P (.array elements) ∧ Expr.AllThroughout P elements
  | .function fn => P (.function fn)

/-- The property holds of every base in the trees. -/
def Expr.AllThroughout (P : Base → Prop) : List Expr → Prop
  | [] => True
  | e :: es => e.Throughout P ∧ Expr.AllThroughout P es

/-- The property holds of every base in the accessors. -/
def Accessor.AllThroughout (P : Base → Prop) : List Accessor → Prop
  | [] => True
  | .dot _ :: accs => Accessor.AllThroughout P accs
  | .index e :: accs => e.Throughout P ∧ Accessor.AllThroughout P accs

end

variable {P Q : Base → Prop}

theorem Expr.operandwise_throughout (P : Base → Prop) : Expr.Operandwise (·.Throughout P) where
  unary op e := by rw [Expr.Throughout]
  binary op l r := by rw [Expr.Throughout]

theorem Expr.allThroughout_iff {es : List Expr} : Expr.AllThroughout P es ↔ ∀ e ∈ es, e.Throughout P := by
  induction es with
  | nil => simp [Expr.AllThroughout]
  | cons e es ih => rw [Expr.AllThroughout, ih, List.forall_mem_cons]

theorem Accessor.allThroughout_iff {accs : List Accessor} :
    Accessor.AllThroughout P accs ↔ ∀ e, Accessor.index e ∈ accs → e.Throughout P := by
  induction accs with
  | nil => simp [Accessor.AllThroughout]
  | cons acc accs ih => cases acc <;> simp [Accessor.AllThroughout, ih]

theorem Base.Throughout.self {b : Base} (h : b.Throughout P) : P b := by
  cases b with
  | literal v implicit | name name v | function fn => simpa only [Base.Throughout] using h
  | call name fn args pos | object keys values | array elements =>
    rw [Base.Throughout] at h
    exact h.1

/-- What holds throughout a tree holds of each base in it. -/
theorem Expr.Throughout.of_contains {e : Expr} (h : e.Throughout P) {ps : List Part} {b : Base}
    {accs : List Accessor} {pos : Position} (inside : e.Contains ps (.atom b accs pos)) : P b := by
  generalize found : Expr.atom b accs pos = a at inside
  induction inside with
  | here e =>
    subst found
    rw [Expr.Throughout] at h
    exact h.1.self
  | operand op _ ih => exact ih (by rwa [Expr.Throughout] at h) found
  | left op r _ ih =>
    rw [Expr.Throughout] at h
    exact ih h.1 found
  | right op l _ ih =>
    rw [Expr.Throughout] at h
    exact ih h.2 found
  | argument name fn at' accs' pos' among _ ih =>
    rw [Expr.Throughout, Base.Throughout] at h
    exact ih (Expr.allThroughout_iff.1 h.1.2 _ among) found
  | element accs' pos' among _ ih =>
    rw [Expr.Throughout, Base.Throughout] at h
    exact ih (Expr.allThroughout_iff.1 h.1.2 _ among) found
  | property keys accs' pos' among _ ih =>
    rw [Expr.Throughout, Base.Throughout] at h
    exact ih (Expr.allThroughout_iff.1 h.1.2 _ among) found
  | index b' pos' among _ ih =>
    rw [Expr.Throughout] at h
    exact ih (Accessor.allThroughout_iff.1 h.2 _ among) found

mutual

theorem Expr.throughout_of_contains (e : Expr)
    (h : ∀ ps b accs pos, e.Contains ps (.atom b accs pos) → P b) : e.Throughout P := by
  cases e with
  | atom b accs pos =>
    rw [Expr.Throughout]
    refine ⟨Base.throughout_of_contains b accs pos (h _ _ _ _ (.here _)) h, ?_⟩
    exact Accessor.allThroughout_of_contains accs fun e among ps b' accs' pos' inside =>
      h _ _ _ _ (.index b pos among inside)
  | unary op e =>
    rw [Expr.Throughout]
    exact Expr.throughout_of_contains e fun ps b accs pos inside => h _ _ _ _ (.operand op inside)
  | binary op l r =>
    rw [Expr.Throughout]
    exact ⟨Expr.throughout_of_contains l fun ps b accs pos inside => h _ _ _ _ (.left op r inside),
      Expr.throughout_of_contains r fun ps b accs pos inside => h _ _ _ _ (.right op l inside)⟩

theorem Base.throughout_of_contains (b : Base) (accs : List Accessor) (pos : Position) (self : P b)
    (h : ∀ ps b' accs' pos', (Expr.atom b accs pos).Contains ps (.atom b' accs' pos') → P b') :
    b.Throughout P := by
  cases b with
  | literal v implicit | name name v | function fn => simpa only [Base.Throughout] using self
  | call name fn args at' =>
    rw [Base.Throughout]
    exact ⟨self, Expr.allThroughout_of_contains args fun e among ps b' accs' pos' inside =>
      h _ _ _ _ (.argument name fn at' accs pos among inside)⟩
  | object keys values =>
    rw [Base.Throughout]
    exact ⟨self, Expr.allThroughout_of_contains values fun e among ps b' accs' pos' inside =>
      h _ _ _ _ (.property keys accs pos among inside)⟩
  | array elements =>
    rw [Base.Throughout]
    exact ⟨self, Expr.allThroughout_of_contains elements fun e among ps b' accs' pos' inside =>
      h _ _ _ _ (.element accs pos among inside)⟩

theorem Expr.allThroughout_of_contains (es : List Expr)
    (h : ∀ e ∈ es, ∀ ps b accs pos, e.Contains ps (.atom b accs pos) → P b) : Expr.AllThroughout P es := by
  cases es with
  | nil => trivial
  | cons e es =>
    obtain ⟨first, rest⟩ := List.forall_mem_cons.1 h
    rw [Expr.AllThroughout]
    exact ⟨Expr.throughout_of_contains e first, Expr.allThroughout_of_contains es rest⟩

theorem Accessor.allThroughout_of_contains (accs : List Accessor)
    (h : ∀ e, Accessor.index e ∈ accs → ∀ ps b accs pos, e.Contains ps (.atom b accs pos) → P b) :
    Accessor.AllThroughout P accs := by
  cases accs with
  | nil => trivial
  | cons acc accs =>
    have rest := Accessor.allThroughout_of_contains accs fun e among => h e (List.mem_cons_of_mem _ among)
    cases acc with
    | dot name => rwa [Accessor.AllThroughout]
    | index e =>
      rw [Accessor.AllThroughout]
      exact ⟨Expr.throughout_of_contains e (h e List.mem_cons_self), rest⟩

end

/-- A property holds throughout a tree exactly if it holds of every base that stands in it. -/
theorem Expr.throughout_iff {e : Expr} :
    e.Throughout P ↔ ∀ ps b accs pos, e.Contains ps (.atom b accs pos) → P b :=
  ⟨fun h _ _ _ _ inside => h.of_contains inside, Expr.throughout_of_contains e⟩

end Gapscript
