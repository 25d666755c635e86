import Gapscript.Value.Basic

/-!
# Objects

An object is a list of properties in the order in which their keys were first written. An array is
an object whose first element has the key `-1`. Reading a property follows the prototype chain,
which ends at an object without a prototype or where it comes back to itself.
-/

namespace Gapscript

/-- Properties in order of first insertion. -/
structure Object where
  isArray : Bool := false
  entries : List (String × Value) := []
deriving Inhabited

namespace Object

/-- The keys in order of first insertion. -/
def keys (o : Object) : List String := o.entries.map (·.1)

/-- The object's own property of a key. -/
def get? (o : Object) (key : String) : Option Value := o.entries.lookup key

/-- Writes into a list of properties, a new key going to the end. -/
def put (key : String) (v : Value) : List (String × Value) → List (String × Value)
  | [] => [(key, v)]
  | (k, w) :: rest => if k = key then (k, v) :: rest else (k, w) :: put key v rest

/-- The object with a property written. -/
def set (o : Object) (key : String) (v : Value) : Object :=
  { o with entries := put key v o.entries }

/-- The key of the element at a position of an array. -/
def elementKey (position : Nat) : String := toString ((position : Int) - 1)

/-- Writes elements under the keys from a position on. -/
def fill (o : Object) (position : Nat) : List Value → Object
  | [] => o
  | v :: vs => fill (o.set (elementKey position) v) (position + 1) vs

/-- The array of the given elements. -/
def ofElements (vs : List Value) : Object := fill { isArray := true } 0 vs

end Object

/-- The property that links an object to its prototype. -/
def protoKey : String := "__proto__"

/-- All objects, each found under the number it was created with. -/
structure Heap where
  objects : Array Object := #[]
deriving Inhabited

namespace Heap

/-- The object of a reference. -/
def get (h : Heap) (ref : Nat) : Object := h.objects.getD ref {}

/-- The heap with one more object, and the reference to it. -/
def alloc (h : Heap) (o : Object) : Nat × Heap :=
  (h.objects.size, ⟨h.objects.push o⟩)

/-- The heap with a property of an object written. -/
def setProperty (h : Heap) (ref : Nat) (key : String) (v : Value) : Heap :=
  ⟨h.objects.modify ref (·.set key v)⟩

/-- Reads a property along at most `steps` objects of the prototype chain. -/
def lookupWithin (h : Heap) (key : String) : (steps : Nat) → (ref : Nat) → Value
  | 0, _ => .undefined
  | steps + 1, ref =>
    match (h.get ref).get? key with
    | some v => v
    | none =>
      match (h.get ref).get? protoKey with
      | some (.object proto) => lookupWithin h key steps proto
      | _ => .undefined

/-- Reads a property along the prototype chain. A chain longer than there are objects has come back
to itself. -/
def lookup (h : Heap) (ref : Nat) (key : String) : Value :=
  h.lookupWithin key (h.objects.size + 1) ref

end Heap

end Gapscript
