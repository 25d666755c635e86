import Gapscript.Run.Eval
import Mathlib

/-!
# Properties

Whatever is written into objects, each of them has the keys of its writes in the order in which they came first,
each once, with what was written last (`Object.Records`, `Operation.recorded_heap`). A property is read off the
first object of the prototype chain that owns it, and is undefined if the chain ends or comes back to itself before
(`lookup_eq_iff`). Names behind dots are read one after the other until one is read of null
(`evalAccessors_dots`).
-/

namespace Gapscript

/-! ## Objects -/

namespace Object

theorem lookup_cons_eq (e : String × Value) (es : List (String × Value)) (k : String) :
    (e :: es).lookup k = if k = e.1 then some e.2 else es.lookup k := by
  obtain ⟨key, v⟩ := e
  rw [List.lookup_cons]
  by_cases same : k = key
  · simp [same]
  · simp [same, beq_eq_false_iff_ne.2 same]

theorem keys_put {key : String} {v : Value} {es : List (String × Value)} (known : key ∈ es.map (·.1)) :
    (put key v es).map (·.1) = es.map (·.1) := by
  induction es with
  | nil => cases known
  | cons e es ih =>
    rw [put]
    split
    · rfl
    · next other =>
      have later : key ∈ es.map (·.1) := by simpa [Ne.symm other] using known
      rw [List.map_cons, List.map_cons, ih later]

theorem put_eq_append {key : String} {v : Value} {es : List (String × Value)} (fresh : key ∉ es.map (·.1)) :
    put key v es = es ++ [(key, v)] := by
  induction es with
  | nil => rfl
  | cons e es ih =>
    rw [List.map_cons, List.mem_cons, not_or] at fresh
    rw [put, if_neg (Ne.symm fresh.1), ih fresh.2, List.cons_append]

/-- A new key goes to the end, and a known one stays where it is. -/
theorem keys_set (o : Object) (key : String) (v : Value) :
    (o.set key v).keys = if key ∈ o.keys then o.keys else o.keys ++ [key] := by
  unfold set keys
  split
  · next known => exact keys_put known
  · next fresh =>
    rw [put_eq_append fresh, List.map_append]
    rfl

/-- What was written is read, and nothing else has changed. -/
theorem get?_set (o : Object) (key : String) (v : Value) (k : String) :
    (o.set key v).get? k = if k = key then some v else o.get? k := by
  unfold set get?
  dsimp only
  induction o.entries with
  | nil => exact lookup_cons_eq (key, v) [] k
  | cons e es ih =>
    rw [put]
    split
    · next here =>
      rw [lookup_cons_eq, lookup_cons_eq, here]
      split <;> rfl
    · next other =>
      rw [lookup_cons_eq, lookup_cons_eq, ih]
      by_cases same : k = key
      · rw [if_pos same, if_pos same, if_neg (fun first => other (first.symm.trans same))]
      · rw [if_neg same, if_neg same]

/-- The keys are those that something is stored under. -/
theorem mem_keys_iff (o : Object) (k : String) : k ∈ o.keys ↔ ∃ v, o.get? k = some v := by
  unfold keys get?
  induction o.entries with
  | nil => simp
  | cons e es ih =>
    rw [List.map_cons, List.mem_cons, ih, lookup_cons_eq]
    by_cases same : k = e.1
    · simp [same]
    · simp [same]

/-- The writes that make up an object: its keys are theirs in the order in which they came first, each once,
and under each key is what was written last. -/
structure Records (o : Object) (isArray : Bool) (writes : List (String × Value)) : Prop where
  kind : o.isArray = isArray
  distinct : o.keys.Nodup
  domain : ∀ k, k ∈ o.keys ↔ ∃ v, o.get? k = some v
  order : o.keys = (writes.map (·.1)).eraseDups
  last : ∀ k, o.get? k = writes.reverse.lookup k

theorem records_empty (isArray : Bool) : Records { isArray := isArray } isArray [] :=
  ⟨rfl, List.nodup_nil, mem_keys_iff _, rfl, fun _ => rfl⟩

/-- One more write. -/
theorem Records.set {o : Object} {isArray : Bool} {writes : List (String × Value)} (h : o.Records isArray writes)
    (key : String) (v : Value) : (o.set key v).Records isArray (writes ++ [(key, v)]) where
  kind := h.kind
  distinct := by
    rw [keys_set]
    split
    · exact h.distinct
    · next fresh =>
      rw [← List.concat_eq_append]
      exact h.distinct.concat fresh
  domain := mem_keys_iff _
  order := by
    rw [keys_set, List.map_append, List.eraseDups_append, ← h.order, List.map_cons, List.map_nil]
    have known : key ∈ writes.map (·.1) ↔ key ∈ o.keys := by rw [h.order, List.mem_eraseDups]
    by_cases old : key ∈ o.keys
    · rw [if_pos old]
      simp [List.removeAll, known.2 old]
    · rw [if_neg old]
      simp [List.removeAll, mt known.1 old, List.eraseDups_cons]
  last k := by
    rw [get?_set, List.reverse_append, List.reverse_singleton, List.singleton_append, lookup_cons_eq, h.last]

theorem Records.fill {o : Object} {isArray : Bool} {writes : List (String × Value)} (h : o.Records isArray writes)
    (position : Nat) (vs : List Value) :
    (o.fill position vs).Records isArray
      (writes ++ (vs.zipIdx position).map fun (v, i) => (elementKey i, v)) := by
  induction vs generalizing o writes position with
  | nil => rwa [List.zipIdx_nil, List.map_nil, List.append_nil]
  | cons v vs ih =>
    have rest := ih (h.set (elementKey position) v) (position + 1)
    rwa [List.append_assoc, List.singleton_append] at rest

end Object

/-! ## Heaps -/

/-- An operation on objects: a new object, a new array of elements, a write into an object. -/
inductive Operation where
  | newObject
  | newArray (elements : List Value)
  | set (ref : Nat) (key : String) (v : Value)

namespace Operation

/-- What the operation does to the objects. -/
def onHeap (h : Heap) : Operation → Heap
  | newObject => (h.alloc {}).2
  | newArray vs => (h.alloc (Object.ofElements vs)).2
  | set ref key v => h.setProperty ref key v

/-- The heap that operations lead to. -/
def heap (ops : List Operation) : Heap := ops.foldl onHeap {}

/-- What the operation adds to the list of all writes into each object. -/
def onWrites (log : List (Bool × List (String × Value))) : Operation → List (Bool × List (String × Value))
  | newObject => log ++ [(false, [])]
  | newArray vs => log ++ [(true, vs.zipIdx.map fun (v, i) => (Object.elementKey i, v))]
  | set ref key v => log.modify ref fun (isArray, writes) => (isArray, writes ++ [(key, v)])

/-- All writes into each object, the objects in the order in which they were made. -/
def writes (ops : List Operation) : List (Bool × List (String × Value)) := ops.foldl onWrites []

/-- The objects consist of the writes. -/
def Recorded (h : Heap) (log : List (Bool × List (String × Value))) : Prop :=
  List.Forall₂ (fun o entry => o.Records entry.1 entry.2) h.objects.toList log

theorem Recorded.push {h : Heap} {log : List (Bool × List (String × Value))} (recorded : Recorded h log)
    {o : Object} {isArray : Bool} {ws : List (String × Value)} (ho : o.Records isArray ws) :
    Recorded (h.alloc o).2 (log ++ [(isArray, ws)]) := by
  unfold Recorded Heap.alloc
  rw [Array.toList_push]
  exact List.rel_append recorded (.cons ho .nil)

/-- The writes are told along with each operation. -/
theorem Recorded.perform {h : Heap} {log : List (Bool × List (String × Value))} (recorded : Recorded h log)
    (op : Operation) : Recorded (op.onHeap h) (op.onWrites log) := by
  cases op with
  | newObject => exact recorded.push (Object.records_empty false)
  | newArray vs => exact recorded.push ((Object.records_empty true).fill 0 vs)
  | set ref key v =>
    unfold Recorded onHeap onWrites Heap.setProperty
    dsimp only
    rw [Array.toList_modify]
    unfold Recorded at recorded
    generalize h.objects.toList = objects at recorded
    induction recorded generalizing ref with
    | nil => cases ref <;> exact .nil
    | cons first rest ih =>
      cases ref with
      | zero => exact .cons (first.set key v) rest
      | succ ref => exact .cons first (ih ref)

/-- After any operations the objects consist of the writes into them. -/
theorem recorded_heap (ops : List Operation) : Recorded (heap ops) (writes ops) := by
  have run (h : Heap) (log : List (Bool × List (String × Value))) (recorded : Recorded h log) :
      Recorded (ops.foldl onHeap h) (ops.foldl onWrites log) := by
    induction ops generalizing h log with
    | nil => exact recorded
    | cons op ops ih => exact ih _ _ (recorded.perform op)
  exact run {} [] .nil

end Operation

/-! ## Prototype chains -/

namespace Heap

variable {h : Heap}

/-- The object that an object inherits from. -/
def parent? (h : Heap) (ref : Nat) : Option Nat :=
  match (h.get ref).get? protoKey with
  | some (.object proto) => some proto
  | _ => none

/-- A piece of a prototype chain: the objects from one on up to another one, the last one left out. -/
inductive Chain (h : Heap) : Nat → List Nat → Nat → Prop
  | here (ref : Nat) : h.Chain ref [] ref
  | next {ref proto last : Nat} {path : List Nat} (parent : h.parent? ref = some proto)
      (rest : h.Chain proto path last) : h.Chain ref (ref :: path) last

/-- What a property reads as: going up the prototype chain through different objects that do not own the key,
one comes to an object that owns it, or the chain ends or comes back to an object of before. -/
def Reads (h : Heap) (ref : Nat) (key : String) (v : Value) : Prop :=
  ∃ path last, h.Chain ref path last ∧ path.Nodup ∧ (∀ r ∈ path, (h.get r).get? key = none) ∧
    ((h.get last).get? key = some v ∨
      v = .undefined ∧ (last ∈ path ∨ (h.get last).get? key = none ∧ h.parent? last = none))

theorem lookupWithin_succ (h : Heap) (key : String) (steps ref : Nat) :
    h.lookupWithin key (steps + 1) ref =
      ((h.get ref).get? key).getD
        ((h.parent? ref).elim .undefined (h.lookupWithin key steps)) := by
  rw [lookupWithin, parent?]
  cases (h.get ref).get? key with
  | some v => rfl
  | none =>
    cases (h.get ref).get? protoKey with
    | none => rfl
    | some v => cases v <;> rfl

/-- Only an object that exists has something in it. -/
theorem lt_size_of_get? {ref : Nat} {key : String} {v : Value} (stored : (h.get ref).get? key = some v) :
    ref < h.objects.size := by
  refine Nat.lt_of_not_le fun beyond => ?_
  have nothing : h.get ref = {} := by simp [get, Array.getElem?_eq_none beyond]
  rw [nothing] at stored
  cases stored

theorem lt_size_of_parent? {ref proto : Nat} (parent : h.parent? ref = some proto) : ref < h.objects.size := by
  unfold parent? at parent
  split at parent
  · next stored => exact lt_size_of_get? stored
  · cases parent

/-- There are no more different objects than the heap has. -/
theorem length_le_size {path : List Nat} (distinct : path.Nodup) (exist : ∀ r ∈ path, r < h.objects.size) :
    path.length ≤ h.objects.size := by
  have among : path ⊆ List.range h.objects.size := fun r hr => List.mem_range.2 (exist r hr)
  simpa using (List.subperm_of_subset distinct among).length_le

namespace Chain

variable {ref last : Nat} {path : List Nat}

theorem exists_parent (chain : h.Chain ref path last) :
    ∀ r ∈ path, ∃ proto, h.parent? r = some proto ∧ (proto ∈ path ∨ proto = last) := by
  induction chain with
  | here => nofun
  | next parent rest ih =>
    rename_i ref proto last path
    refine List.forall_mem_cons.2 ⟨⟨proto, parent, ?_⟩, fun r hr => ?_⟩
    · cases rest with
      | here => exact .inr rfl
      | next => exact .inl (List.mem_cons_of_mem _ List.mem_cons_self)
    · obtain ⟨proto', parent', among | final⟩ := ih r hr
      · exact ⟨proto', parent', .inl (List.mem_cons_of_mem _ among)⟩
      · exact ⟨proto', parent', .inr final⟩

theorem length_le (chain : h.Chain ref path last) (distinct : path.Nodup) : path.length ≤ h.objects.size :=
  length_le_size distinct fun r hr =>
    have ⟨_, parent, _⟩ := chain.exists_parent r hr
    lt_size_of_parent? parent

theorem concat (chain : h.Chain ref path last) {proto : Nat} (parent : h.parent? last = some proto) :
    h.Chain ref (path ++ [last]) proto := by
  induction chain with
  | here => exact .next parent (.here _)
  | next first _ ih => exact .next first (ih parent)

/-- Reading goes up the chain past objects that do not own the key. -/
theorem lookupWithin_eq (chain : h.Chain ref path last) {key : String}
    (unowned : ∀ r ∈ path, (h.get r).get? key = none) (steps : Nat) :
    h.lookupWithin key (path.length + steps) ref = h.lookupWithin key steps last := by
  induction chain with
  | here =>
    rw [List.length_nil, Nat.zero_add]
  | next parent rest ih =>
    obtain ⟨first, later⟩ := List.forall_mem_cons.1 unowned
    rw [List.length_cons, Nat.add_right_comm, lookupWithin_succ, first, parent]
    exact ih later

/-- Nothing is read along a chain that comes back to itself. -/
theorem lookupWithin_of_mem (chain : h.Chain ref path last) (back : last ∈ path) {key : String}
    (unowned : ∀ r ∈ path, (h.get r).get? key = none) (steps : Nat) {r : Nat} (hr : r ∈ path) :
    h.lookupWithin key steps r = .undefined := by
  induction steps generalizing r with
  | zero => rfl
  | succ steps ih =>
    obtain ⟨proto, parent, among⟩ := chain.exists_parent r hr
    rw [lookupWithin_succ, unowned r hr, parent]
    exact ih (among.elim id fun final => final ▸ back)

end Chain

theorem lookup_of_reads {ref : Nat} {key : String} {v : Value} (reads : h.Reads ref key v) : h.lookup ref key = v := by
  obtain ⟨path, last, chain, distinct, unowned, outcome⟩ := reads
  have enough := chain.length_le distinct
  obtain ⟨steps, split⟩ : ∃ steps, h.objects.size + 1 = path.length + (steps + 1) :=
    ⟨h.objects.size - path.length, by omega⟩
  rw [lookup, split, chain.lookupWithin_eq unowned]
  rcases outcome with owned | ⟨rfl, back | ⟨none_, ended⟩⟩
  · rw [lookupWithin_succ, owned]
    rfl
  · exact chain.lookupWithin_of_mem back unowned _ back
  · rw [lookupWithin_succ, none_, ended]
    rfl

/-- Every property reads as something: a chain through different objects is not longer than there are objects. -/
theorem exists_reads (h : Heap) (ref : Nat) (key : String) : ∃ v, h.Reads ref key v := by
  have onward (steps : Nat) (path : List Nat) (last : Nat) (chain : h.Chain ref path last) (distinct : path.Nodup)
      (unowned : ∀ r ∈ path, (h.get r).get? key = none) (enough : h.objects.size < path.length + steps) :
      ∃ v, h.Reads ref key v := by
    induction steps generalizing path last with
    | zero => exact absurd (chain.length_le distinct) (Nat.not_le_of_lt enough)
    | succ steps ih =>
      by_cases back : last ∈ path
      · exact ⟨.undefined, path, last, chain, distinct, unowned, .inr ⟨rfl, .inl back⟩⟩
      · cases owned : (h.get last).get? key with
        | some v => exact ⟨v, path, last, chain, distinct, unowned, .inl owned⟩
        | none =>
          cases parent : h.parent? last with
          | none => exact ⟨.undefined, path, last, chain, distinct, unowned, .inr ⟨rfl, .inr ⟨owned, parent⟩⟩⟩
          | some proto =>
            refine ih (path ++ [last]) proto (chain.concat parent) ?_ ?_ ?_
            · rw [← List.concat_eq_append]
              exact distinct.concat back
            · exact List.forall_mem_append.2 ⟨unowned, List.forall_mem_singleton.2 owned⟩
            · rw [List.length_append, List.length_singleton]
              omega
  exact onward (h.objects.size + 1) [] ref (.here ref) List.nodup_nil nofun (by simp)

/-- A property is read off the first object of the chain that owns it. -/
theorem lookup_eq_iff (h : Heap) (ref : Nat) (key : String) (v : Value) :
    h.lookup ref key = v ↔ h.Reads ref key v := by
  constructor
  · rintro rfl
    obtain ⟨w, reads⟩ := h.exists_reads ref key
    rwa [lookup_of_reads reads]
  · exact lookup_of_reads

end Heap

/-! ## Names behind dots -/

/-- The value of a property; only objects have any. -/
def Heap.property (h : Heap) (v : Value) (key : String) : Value :=
  match v with
  | .object ref => h.lookup ref key
  | _ => .undefined

/-- The value that names lead to, one behind the other. -/
def Heap.along (h : Heap) (v : Value) (names : List String) : Value := names.foldl h.property v

section Dots

variable (host : Host) (inner : Inner) (pos : Position)

/-- The first name is read, or refused by null. -/
theorem evalAccessors_dot (v : Value) (name : String) (accs : List Accessor) (s : State) :
    evalAccessors host inner pos v (.dot name :: accs) s =
      if v.kind = .null then .error (.runtime ⟨.type (.readOfNull name), some pos⟩) s
      else evalAccessors host inner pos (s.heap.property v name) accs s := by
  rw [evalAccessors]
  cases v <;> rfl

/-- Names behind dots are read one after the other, until one is read of null. -/
theorem evalAccessors_dots (v : Value) (names : List String) (s : State) :
    (∃ i, ∃ name, names[i]? = some name ∧ s.heap.along v (names.take i) = .null ∧
        evalAccessors host inner pos v (names.map .dot) s =
          .error (.runtime ⟨.type (.readOfNull name), some pos⟩) s) ∨
      (∀ i < names.length, s.heap.along v (names.take i) ≠ .null) ∧
        evalAccessors host inner pos v (names.map .dot) s = .ok (s.heap.along v names) s := by
  induction names generalizing v with
  | nil => exact .inr ⟨nofun, rfl⟩
  | cons name names ih =>
    rw [List.map_cons, evalAccessors_dot]
    by_cases null : v.kind = .null
    · have is : v = .null := by cases v <;> first | rfl | cases null
      exact .inl ⟨0, name, rfl, is, if_pos null⟩
    · rw [if_neg null]
      rcases ih (s.heap.property v name) with ⟨i, key, there, led, failed⟩ | ⟨clear, read⟩
      · exact .inl ⟨i + 1, key, there, led, failed⟩
      · refine .inr ⟨fun i below => ?_, read⟩
        cases i with
        | zero =>
          rintro led
          exact null (by rw [show v = .null from led]; rfl)
        | succ i => exact clear i (Nat.lt_of_succ_lt_succ below)

end Dots

/-- Properties over any heap. After any operations on objects each of them has distinct keys, those that something
is stored under, in the order in which they were first written, with what was written last. A property of an
object is always read: off the first object of its prototype chain that owns the key, or as undefined if the chain
ends or repeats before. Names behind dots are read off any value unless a value in front of one of them is null,
and then the name is reported at the place of the expression. -/
theorem properties_read (ops : List Operation) :
    Operation.Recorded (Operation.heap ops) (Operation.writes ops) ∧
    (∀ (h : Heap) (ref : Nat) (key : String) (v : Value), h.lookup ref key = v ↔ h.Reads ref key v) ∧
    ∀ (host : Host) (inner : Inner) (pos : Position) (v : Value) (names : List String) (s : State),
      ((∃ e t, evalAccessors host inner pos v (names.map .dot) s = .error e t) ↔
        ∃ i < names.length, s.heap.along v (names.take i) = .null) ∧
      (∀ w t, evalAccessors host inner pos v (names.map .dot) s = .ok w t → w = s.heap.along v names ∧ t = s) ∧
      ∀ e t, evalAccessors host inner pos v (names.map .dot) s = .error e t →
        t = s ∧ ∃ i name, names[i]? = some name ∧ s.heap.along v (names.take i) = .null ∧
          e = .runtime ⟨.type (.readOfNull name), some pos⟩ := by
  refine ⟨Operation.recorded_heap ops, Heap.lookup_eq_iff, fun host inner pos v names s => ?_⟩
  rcases evalAccessors_dots host inner pos v names s with ⟨i, name, there, led, failed⟩ | ⟨clear, read⟩
  · obtain ⟨below, -⟩ := List.getElem?_eq_some_iff.1 there
    rw [failed]
    refine ⟨⟨fun _ => ⟨i, below, led⟩, fun _ => ⟨_, _, rfl⟩⟩, ?_, ?_⟩
    · intro w t run
      cases run
    · rintro e t ⟨⟩
      exact ⟨rfl, i, name, there, led, rfl⟩
  · rw [read]
    refine ⟨⟨?_, fun ⟨i, below, led⟩ => absurd led (clear i below)⟩, ?_, ?_⟩
    · rintro ⟨e, t, run⟩
      cases run
    · rintro w t ⟨⟩
      exact ⟨rfl, rfl⟩
    · intro e t run
      cases run

/-- Two objects that are the prototypes of each other: what neither owns is undefined, the null of the second is
read off the first, and nothing is read off that. -/
theorem properties_read_circle :
    let h := Operation.heap [.newObject, .newObject, .set 0 protoKey (.object 1), .set 1 protoKey (.object 0),
      .set 1 "b" .null]
    h.lookup 0 "a" = .undefined ∧
      (∃ e t, evalAccessors ⟨#[], false⟩ ⟨fun _ _ => pure none, fun _ => pure .undefined⟩ {} (.object 0)
        (["b", "c"].map .dot) { heap := h } = .error e t) ∧
      evalAccessors ⟨#[], false⟩ ⟨fun _ _ => pure none, fun _ => pure .undefined⟩ {} (.object 0)
        (["b"].map .dot) { heap := h } = .ok (h.along (.object 0) ["b"]) { heap := h } := by
  intro h
  have unowned : ∀ r ∈ [0, 1], (h.get r).get? "a" = none := by
    intro r hr
    rcases List.mem_cons.1 hr with rfl | hr
    · rfl
    · cases List.mem_singleton.1 hr
      rfl
  have around : h.Chain 0 [0, 1] 0 := .next rfl (.next rfl (.here 0))
  have read : evalAccessors ⟨#[], false⟩ ⟨fun _ _ => pure none, fun _ => pure .undefined⟩ {} (.object 0)
      (["b"].map .dot) { heap := h } = .ok .null { heap := h } := rfl
  have led : h.along (.object 0) ["b"] = .null := rfl
  have dots := (properties_read []).2.2 ⟨#[], false⟩ ⟨fun _ _ => pure none, fun _ => pure .undefined⟩ {} (.object 0)
  refine ⟨?_, ?_, ?_⟩
  · exact ((properties_read []).2.1 h 0 "a" .undefined).2
      ⟨_, _, around, by decide, unowned, .inr ⟨rfl, .inl List.mem_cons_self⟩⟩
  · exact (dots ["b", "c"] { heap := h }).1.2 ⟨1, by decide, led⟩
  · obtain ⟨same, -⟩ := (dots ["b"] { heap := h }).2.1 .null { heap := h } read
    rw [← same]
    exact read

end Gapscript
