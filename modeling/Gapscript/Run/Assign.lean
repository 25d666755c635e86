import Gapscript.Run.Eval
import Gapscript.Statement.Basic

/-!
# Assignments

The right side is evaluated first, then the name is looked up. A plain assignment to a name nobody
bound declares it. A property is written on the object that the accessors before the last lead to.
-/

namespace Gapscript

/-- The value that an assignment stores, from the old value and the right side. -/
def AssignMode.combine (mode : AssignMode) (h : Heap) (old rhs : Value) : Except TypeFault Value :=
  match mode with
  | .plain => .ok rhs
  | .compound op => h.binary op old rhs
  | .step op =>
    match old with
    | .bigint _ => h.binary op old (.bigint 1)
    | _ => h.binary op old (.number 1)

/-- The mutability allows an assignment to the name. -/
def AssignMode.permitted (mode : AssignMode) (name : String) (m : Mutability) : Except TypeFault Unit :=
  match mode with
  | .plain => if m.reassignable then .ok () else .error (.reassign name m)
  | _ => if m.editable then .ok () else .error (.modify name m)

section Assign

variable (host : Host) (inner : Inner)

/-- Assigns to a name. -/
def assignName (name : String) (mode : AssignMode) (rhs : Value) : Run Value := do
  let s ← get
  match s.lookupVariable name with
  | none =>
    if mode = .plain then
      set (s.declare name rhs .varVar .forever)
      Run.debug .scope ("implicitly declared " ++ name)
      pure rhs
    else throw (.runtime ⟨.variableNotFound name, none⟩)
  | some v =>
    Run.ofFault (mode.permitted name v.mutability)
    let updated ← Run.ofFault (mode.combine s.heap v.value rhs)
    modify fun s => s.assign name updated
    pure updated

/-- Follows all accessors but the last. -/
def container (v : Value) : Accessor → List Accessor → Run (Value × Accessor)
  | last, [] => pure (v, last)
  | acc, next :: more => do
    let key ← evalKey host inner acc
    let s ← get
    let v ← Run.ofFault (s.heap.readProperty v key)
    container v next more

/-- Assigns to a property reached from a name. -/
def assignProperty (name : String) (acc : Accessor) (accs : List Accessor) (mode : AssignMode)
    (rhs : Value) : Run Value := do
  let s ← get
  match s.lookupVariable name with
  | none => throw (.runtime ⟨.variableNotFound name, none⟩)
  | some v =>
    if !v.mutability.editable then throw (.ofFault (.modify name v.mutability))
    let (target, last) ← container host inner v.value acc accs
    let key ← evalKey host inner last
    match target with
    | .object ref =>
      let s ← get
      let updated ← Run.ofFault (mode.combine s.heap (s.heap.lookup ref key) rhs)
      modify fun s => { s with heap := s.heap.setProperty ref key updated }
      pure updated
    | other => throw (.ofFault (.setProperty key other.typeName))

/-- Runs an assignment and returns the value it stored. -/
def runAssignment (a : Assignment) : Run Value := do
  let rhs ← match a.value with
    | some e => eval host inner e
    | none => pure .undefined
  match a.accessors with
  | [] => assignName a.name a.mode rhs
  | acc :: accs => assignProperty host inner a.name acc accs a.mode rhs

end Assign

end Gapscript
