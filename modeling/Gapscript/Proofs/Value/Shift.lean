import Gapscript.Proofs.Value.Held
import Gapscript.Proofs.Reading.Shift

/-!
# Values from further down

Only functions carry places, and nothing that a program can do with a function shows them: it is
displayed by its name, compared by its identity, and has no properties. So operators, objects and the
heap do with shifted values what they do with the values themselves.
-/

namespace Gapscript

namespace Shift

/-- An object, shifted. -/
def object (d : Shift) (o : Object) : Object :=
  { o with entries := o.entries.map fun e => (e.1, d.value e.2) }

/-- A heap, shifted. -/
def heap (d : Shift) (h : Heap) : Heap := ⟨h.objects.map d.object⟩

variable {d : Shift}

/-! ## Values -/

section Values

variable (v w : Value)

@[simp] theorem kind_value : (d.value v).kind = v.kind := by cases v <;> rfl

@[simp] theorem typeName_value : (d.value v).typeName = v.typeName := by cases v <;> rfl

@[simp] theorem isReference_value : (d.value v).isReference = v.isReference := by cases v <;> rfl

@[simp] theorem isNullish_value : (d.value v).isNullish = v.isNullish := by cases v <;> rfl

@[simp] theorem joinsAsText_value : (d.value v).joinsAsText = v.joinsAsText := by cases v <;> rfl

@[simp] theorem toBoolean_value : (d.value v).toBoolean = v.toBoolean := by cases v <;> rfl

@[simp] theorem toNumber_value : (d.value v).toNumber = v.toNumber := by cases v <;> rfl

@[simp] theorem strictEq_value : (d.value v).strictEq (d.value w) = v.strictEq w := by
  cases v <;> cases w <;> rfl

@[simp] theorem scalarText_value : (d.value v).scalarText = v.scalarText := by
  cases v with
  | function f => exact describe_function f.code
  | _ => rfl

end Values

/-- An outcome without values that have an identity stays as it is. -/
theorem map_value_of_plain {r : Except TypeFault Value} (h : ∀ v, r = .ok v → v.isReference = false) :
    r.map d.value = r := by
  cases r with
  | ok v => exact congrArg Except.ok (value_of_plain (h v rfl))
  | error f => rfl

/-! ## Objects -/

section Objects

variable (o : Object)

theorem get?_object (key : String) : (d.object o).get? key = (o.get? key).map d.value := by
  obtain ⟨isArray, entries⟩ := o
  change (entries.map _).lookup key = (entries.lookup key).map d.value
  induction entries with
  | nil => rfl
  | cons e es ih =>
    obtain ⟨k, v⟩ := e
    rw [List.map_cons, List.lookup_cons, List.lookup_cons, ih]
    dsimp only
    cases key == k <;> rfl

theorem set_object (key : String) (v : Value) : (d.object o).set key (d.value v) = d.object (o.set key v) := by
  obtain ⟨isArray, entries⟩ := o
  unfold Object.set object
  congr 1
  dsimp only
  induction entries with
  | nil => rfl
  | cons e es ih =>
    obtain ⟨k, w⟩ := e
    rw [List.map_cons, Object.put, Object.put, ih]
    split <;> rfl

theorem setAll_object (es : List (String × Value)) :
    (es.map (Prod.map id d.value)).foldl (fun o (key, v) => o.set key v) (d.object o) =
      d.object (es.foldl (fun o (key, v) => o.set key v) o) := by
  induction es generalizing o with
  | nil => rfl
  | cons e es ih =>
    have first : (d.object o).set e.1 (d.value e.2) = d.object (o.set e.1 e.2) := set_object o e.1 e.2
    rw [List.map_cons, List.foldl_cons, List.foldl_cons, ← ih]
    dsimp only [Prod.map_fst, Prod.map_snd, id]
    rw [first]

theorem fill_object (position : Nat) (vs : List Value) :
    (d.object o).fill position (vs.map d.value) = d.object (o.fill position vs) := by
  induction vs generalizing o position with
  | nil => rfl
  | cons v vs ih => rw [List.map_cons, Object.fill, Object.fill, set_object, ih]

theorem ofElements_map (vs : List Value) :
    Object.ofElements (vs.map d.value) = d.object (Object.ofElements vs) :=
  fill_object { isArray := true } 0 vs

end Objects

/-! ## Heaps -/

section Heaps

variable (h : Heap)

theorem size_heap : (d.heap h).objects.size = h.objects.size := Array.size_map

theorem get_heap (ref : Nat) : (d.heap h).get ref = d.object (h.get ref) := by
  unfold Heap.get
  rw [Array.getD_eq_getD_getElem?, Array.getD_eq_getD_getElem?]
  change ((h.objects.map d.object)[ref]?).getD {} = _
  rw [Array.getElem?_map]
  cases h.objects[ref]? <;> rfl

theorem alloc_heap (o : Object) :
    (d.heap h).alloc (d.object o) = ((h.alloc o).1, d.heap (h.alloc o).2) := by
  unfold Heap.alloc heap
  rw [Array.size_map, Array.map_push]

theorem setProperty_heap (ref : Nat) (key : String) (v : Value) :
    (d.heap h).setProperty ref key (d.value v) = d.heap (h.setProperty ref key v) := by
  unfold Heap.setProperty heap
  congr 1
  apply Array.ext_getElem?
  intro i
  dsimp only
  rw [Array.getElem?_modify, Array.getElem?_map, Array.getElem?_map, Array.getElem?_modify]
  cases h.objects[i]? with
  | none => split <;> rfl
  | some o =>
    split
    · exact congrArg some (set_object o key v)
    · rfl

theorem lookup_heap (ref : Nat) (key : String) : (d.heap h).lookup ref key = d.value (h.lookup ref key) := by
  have within (steps : Nat) (ref : Nat) :
      (d.heap h).lookupWithin key steps ref = d.value (h.lookupWithin key steps ref) := by
    induction steps generalizing ref with
    | zero => rfl
    | succ steps ih =>
      rw [Heap.lookupWithin, Heap.lookupWithin, get_heap, get?_object, get?_object]
      cases (h.get ref).get? key with
      | some v => rfl
      | none =>
        cases (h.get ref).get? protoKey with
        | none => rfl
        | some proto =>
          cases proto with
          | object proto => exact ih proto
          | _ => rfl
  unfold Heap.lookup
  rw [size_heap]
  exact within _ ref

theorem readProperty_heap (v : Value) (key : String) :
    (d.heap h).readProperty (d.value v) key = (h.readProperty v key).map d.value := by
  cases v with
  | object ref => exact congrArg Except.ok (lookup_heap h ref key)
  | _ => rfl

theorem displayNested_heap (depth : Nat) (path : List Nat) (v : Value) :
    (d.heap h).displayNested depth path (d.value v) = h.displayNested depth path v := by
  induction depth generalizing path v with
  | zero =>
    cases v with
    | function f => exact scalarText_value (.function f)
    | _ => rfl
  | succ depth ih =>
    cases v with
    | object ref =>
      change (d.heap h).displayNested (depth + 1) path (.object ref) = _
      rw [Heap.displayNested, Heap.displayNested, get_heap]
      dsimp only [object]
      simp only [List.map_map, Function.comp_def, ih]
    | function f => exact scalarText_value (.function f)
    | _ => rfl

@[simp] theorem display_heap (v : Value) : (d.heap h).display (d.value v) = h.display v := by
  cases v with
  | object ref =>
    change (d.heap h).displayNested ((d.heap h).objects.size + 1) [] (d.value (.object ref)) = _
    rw [displayNested_heap, size_heap]
    rfl
  | function f => exact scalarText_value (.function f)
  | _ => rfl

@[simp] theorem describe_heap (v : Value) : (d.heap h).describe (d.value v) = h.describe v := by
  have shown := display_heap (d := d) h v
  cases v with
  | string s => rfl
  | _ =>
    exact congrArg (fun shown => shown ++ " (" ++ Value.typeName _ ++ ")") shown

@[simp] theorem propertyKey_heap (v : Value) : (d.heap h).propertyKey (d.value v) = h.propertyKey v := by
  have shown := display_heap (d := d) h v
  cases v with
  | number x | string s => rfl
  | _ => exact shown

/-! ## Operators -/

theorem looseEq_heap (a b : Value) : (d.heap h).looseEq (d.value a) (d.value b) = h.looseEq a b := by
  unfold Heap.looseEq
  simp only [kind_value, strictEq_value, isNullish_value, isReference_value, display_heap]
  cases a <;> cases b <;> rfl

theorem compareValues_value (op : BinaryOp) (a b : Value) :
    Heap.compareValues op (d.value a) (d.value b) = Heap.compareValues op a b := by
  cases a <;> cases b <;> rfl

theorem arithmetic_value (op : BinaryOp) (a b : Value) :
    arithmetic op (d.value a) (d.value b) = arithmetic op a b := by
  cases a <;> cases b <;> rfl

theorem unary_value (op : UnaryOp) (v : Value) :
    Heap.unary op (d.value v) = (Heap.unary op v).map d.value := by
  cases op <;> cases v <;> rfl

theorem binary_heap (op : BinaryOp) (a b : Value) :
    (d.heap h).binary op (d.value a) (d.value b) = (h.binary op a b).map d.value := by
  cases op with
  | equal | notEqual => 
    unfold Heap.binary
    dsimp only
    rw [looseEq_heap]
    rfl
  | strictEqual | strictNotEqual =>
    unfold Heap.binary
    dsimp only
    rw [strictEq_value]
    rfl
  | less | greater | lessEqual | greaterEqual =>
    refine (compareValues_value _ a b).trans (map_value_of_plain fun v hv => ?_).symm
    exact isReference_compareValues hv
  | and | or =>
    unfold Heap.binary
    dsimp only
    rw [toBoolean_value]
    split <;> rfl
  | add =>
    unfold Heap.binary
    dsimp only
    rw [joinsAsText_value, joinsAsText_value, display_heap, display_heap, arithmetic_value]
    split
    · rfl
    · exact (map_value_of_plain fun v hv => isReference_arithmetic hv).symm
  | sub | mul | div | mod | pow =>
    refine (arithmetic_value _ a b).trans (map_value_of_plain fun v hv => ?_).symm
    exact isReference_arithmetic hv

theorem combine_heap (mode : AssignMode) (old rhs : Value) :
    mode.combine (d.heap h) (d.value old) (d.value rhs) = (mode.combine h old rhs).map d.value := by
  cases mode with
  | plain => rfl
  | compound op => exact binary_heap h op old rhs
  | step op =>
    cases old with
    | bigint n => exact binary_heap h op (.bigint n) (.bigint 1)
    | _ => exact binary_heap h op _ (.number 1)

end Heaps

/-! ## No shift -/

theorem object_still (o : Object) : still.object o = o := by
  simp [object]

theorem heap_still (h : Heap) : still.heap h = h := by
  have same : still.object = id := funext object_still
  rw [heap, same, Array.map_id]

end Shift

end Gapscript
