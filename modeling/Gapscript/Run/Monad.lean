import Gapscript.Scope.State

/-!
# Running

A run changes the state and ends with a result or a failure; the state reached is there in both
cases. Everything that depends on the host is fixed for a run: the handlers of native functions, and
whether the end of the text may close the last statement.
-/

namespace Gapscript

/-- A step of running a program. -/
abbrev Run := EStateM Error State

/-- A call as a native function sees it. -/
structure Invocation where
  args : List Value
  pos : Option Position

/-- A function provided by the host. -/
structure HostFunction where
  name : String
  arity : Nat
  handler : Invocation → Run Value

/-- What a run is given from outside. -/
structure Host where
  functions : Array HostFunction
  endCloses : Bool := false

namespace Invocation

/-- The first argument. -/
def first (i : Invocation) : Value := i.args.headD .undefined

/-- A type error at the place of the call. -/
def fault (i : Invocation) (message : String) : Error :=
  .runtime ⟨.type (.raised message), i.pos⟩

end Invocation

namespace Run

variable {α : Type}

/-- Fails with a type error whose place is found later. -/
def ofFault : Except TypeFault α → Run α
  | .ok a => pure a
  | .error f => throw (.ofFault f)

/-- Gives a failure a place if it has none. -/
def locate (pos : Option Position) (x : Run α) : Run α := fun s =>
  match x s with
  | .ok a s => .ok a s
  | .error e s => .error (e.withPosition pos) s

/-- Changes the state at the end, whatever the outcome. -/
def always (cleanup : State → State) (x : Run α) : Run α := fun s =>
  match x s with
  | .ok a s => .ok a (cleanup s)
  | .error e s => .error e (cleanup s)

/-- Reads something against the names in force. A mismatch is final. -/
def read (p : Names → Reading α) : Run α := fun s =>
  match Reading.outcome (p s.names) with
  | .ok a => .ok a s
  | .error e => .error e.settled s

/-- Records a message. -/
def log (level : Level) (category : Category) (message : String) : Run Unit :=
  modify fun s => s.record { level := level, category := category, message := message }

/-- Records a message for debugging. -/
def debug (category : Category) (message : String) : Run Unit := log .debug category message

/-- The text of a value. -/
def display (v : Value) : Run String := return (← get).heap.display v

/-- Leaves the innermost frame. Nothing recovers from the attempt to leave the only one. -/
def leave : Run Unit := fun s =>
  match s.pop? with
  | some s => .ok () s
  | none => .error (.runtime ⟨.other State.popRefused, none⟩) s

/-- Runs in a frame of its own, and leaves it whatever the outcome. -/
def inFrame (pos : Option Position) (x : Run α) : Run α := fun s =>
  match s.push with
  | .error f => .error ((Error.ofFault f).withPosition pos) s
  | .ok s =>
    match x s with
    | .ok a s => (do leave; pure a : Run α) s
    | .error e s => (do leave; throw e : Run α) s

end Run

end Gapscript
