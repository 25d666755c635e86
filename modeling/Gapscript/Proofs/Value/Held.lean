import Gapscript.Run.Assign

/-!
# What values hold

Operators give back one of their operands or a scalar, and a property is read off what was written
into an object. So whatever scalars satisfy is kept by everything a program computes, as long as it
holds of all that its objects hold: `Object.All` and `Heap.All` say so of objects and heaps.
-/

namespace Gapscript

/-! ## Values without identity -/

theorem isReference_unary {op : UnaryOp} {v w : Value} (h : Heap.unary op v = .ok w) :
    w.isReference = false := by
  unfold Heap.unary at h
  split at h <;> cases h <;> rfl

theorem isReference_arithmetic {op : BinaryOp} {a b v : Value} (h : arithmetic op a b = .ok v) :
    v.isReference = false := by
  have number (x y : Float) (h : numberArithmetic op x y = .ok v) : v.isReference = false := by
    unfold numberArithmetic at h
    split at h <;> cases h <;> rfl
  have bigint (x y : Int) (h : bigintArithmetic op x y = .ok v) : v.isReference = false := by
    unfold bigintArithmetic at h
    repeat' split at h
    all_goals cases h <;> rfl
  unfold arithmetic at h
  repeat' split at h
  · exact bigint _ _ h
  · cases h
  · cases h
  · cases h
  · exact number _ _ h

theorem isReference_compareValues {op : BinaryOp} {a b v : Value} (h : Heap.compareValues op a b = .ok v) :
    v.isReference = false := by
  unfold Heap.compareValues at h
  dsimp only at h
  repeat' split at h
  all_goals cases h <;> rfl

/-! ## Operators -/

/-- Scalars satisfy the property. -/
def Value.Scalars (P : Value → Prop) : Prop := ∀ {v : Value}, v.isReference = false → P v

variable {P : Value → Prop}

theorem holds_of_binary (scalars : Value.Scalars P) {heap : Heap} {op : BinaryOp} {a b v : Value}
    (h : heap.binary op a b = .ok v) (ha : P a) (hb : P b) : P v := by
  cases op with
  | and | or =>
    change Except.ok _ = _ at h
    cases h
    split
    · assumption
    · assumption
  | equal | notEqual | strictEqual | strictNotEqual =>
    cases h
    exact scalars rfl
  | less | greater | lessEqual | greaterEqual => exact scalars (isReference_compareValues h)
  | add =>
    change (if _ then _ else _) = _ at h
    split at h
    · cases h
      exact scalars rfl
    · exact scalars (isReference_arithmetic h)
  | sub | mul | div | mod | pow => exact scalars (isReference_arithmetic h)

theorem holds_of_combine (scalars : Value.Scalars P) {mode : AssignMode} {heap : Heap} {old rhs v : Value}
    (h : mode.combine heap old rhs = .ok v) (hold : P old) (hrhs : P rhs) : P v := by
  cases mode with
  | plain =>
    cases h
    exact hrhs
  | compound op => exact holds_of_binary scalars h hold hrhs
  | step op =>
    unfold AssignMode.combine at h
    dsimp only at h
    split at h
    · exact holds_of_binary scalars h hold (scalars rfl)
    · exact holds_of_binary scalars h hold (scalars rfl)

/-! ## Objects -/

namespace Object

/-- Every property of the object holds something with the property. -/
def All (P : Value → Prop) (o : Object) : Prop := ∀ e ∈ o.entries, P e.2

theorem all_empty (isArray : Bool) : All P { isArray := isArray } := fun _ he => nomatch he

variable {o : Object}

theorem All.set (h : o.All P) (key : String) {v : Value} (hv : P v) : (o.set key v).All P := by
  have put (es : List (String × Value)) (hes : ∀ e ∈ es, P e.2) : ∀ e ∈ Object.put key v es, P e.2 := by
    induction es with
    | nil => exact List.forall_mem_singleton.2 hv
    | cons e es ih =>
      obtain ⟨first, rest⟩ := List.forall_mem_cons.1 hes
      rw [Object.put]
      split
      · exact List.forall_mem_cons.2 ⟨hv, rest⟩
      · exact List.forall_mem_cons.2 ⟨first, ih rest⟩
  exact put o.entries h

theorem All.fill (h : o.All P) (position : Nat) {vs : List Value} (hvs : ∀ v ∈ vs, P v) :
    (o.fill position vs).All P := by
  induction vs generalizing o position with
  | nil => exact h
  | cons v vs ih =>
    obtain ⟨hv, hvs⟩ := List.forall_mem_cons.1 hvs
    exact ih (h.set _ hv) _ hvs

theorem All.setAll (h : o.All P) {es : List (String × Value)} (hes : ∀ e ∈ es, P e.2) :
    (es.foldl (fun o (key, v) => o.set key v) o).All P := by
  induction es generalizing o with
  | nil => exact h
  | cons e es ih =>
    obtain ⟨he, hes⟩ := List.forall_mem_cons.1 hes
    exact ih (h.set e.1 he) hes

theorem All.get? (h : o.All P) {key : String} {v : Value} (hv : o.get? key = some v) : P v := by
  obtain ⟨before, after, entries, -⟩ := List.lookup_eq_some_iff.1 hv
  refine h (key, v) ?_
  rw [entries]
  exact List.mem_append_right before List.mem_cons_self

end Object

namespace Heap

/-- The objects that the property holds of hold only what it holds of. -/
def All (P : Value → Prop) (heap : Heap) : Prop :=
  ∀ ref o, P (.object ref) → heap.objects[ref]? = some o → o.All P

variable {heap : Heap}

theorem All.get (h : heap.All P) {ref : Nat} (href : P (.object ref)) : (heap.get ref).All P := by
  unfold Heap.get
  rw [Array.getD_eq_getD_getElem?]
  cases ho : heap.objects[ref]? with
  | none => exact Object.all_empty false
  | some o => exact h ref o href ho

theorem All.alloc (h : heap.All P) {o : Object} (ho : o.All P) : (heap.alloc o).2.All P := by
  intro ref o' href ho'
  change (heap.objects.push o)[ref]? = some o' at ho'
  rw [Array.getElem?_push] at ho'
  split at ho'
  · cases ho'
    exact ho
  · exact h ref o' href ho'

theorem All.setProperty (h : heap.All P) (ref : Nat) (key : String) {v : Value} (hv : P v) :
    (heap.setProperty ref key v).All P := by
  intro ref' o href ho
  change (heap.objects.modify ref (·.set key v))[ref']? = some o at ho
  rw [Array.getElem?_modify] at ho
  split at ho
  · obtain ⟨o', ho', rfl⟩ := Option.map_eq_some_iff.1 ho
    exact (h ref' o' href ho').set key hv
  · exact h ref' o href ho

theorem All.lookup (scalars : Value.Scalars P) (h : heap.All P) {ref : Nat} (href : P (.object ref))
    (key : String) : P (heap.lookup ref key) := by
  have within (steps : Nat) (ref : Nat) (href : P (.object ref)) : P (heap.lookupWithin key steps ref) := by
    induction steps generalizing ref with
    | zero => exact scalars rfl
    | succ steps ih =>
      rw [Heap.lookupWithin]
      split
      · next hv => exact (h.get href).get? hv
      · split
        · next hproto => exact ih _ ((h.get href).get? hproto)
        · exact scalars rfl
  exact within _ ref href

theorem All.readProperty (scalars : Value.Scalars P) (h : heap.All P) {base v : Value} {key : String}
    (hbase : P base) (hv : heap.readProperty base key = .ok v) : P v := by
  unfold Heap.readProperty at hv
  split at hv
  · cases hv
    exact h.lookup scalars hbase key
  · cases hv
  · cases hv
    exact scalars rfl

end Heap

end Gapscript
