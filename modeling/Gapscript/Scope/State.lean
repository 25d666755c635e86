import Gapscript.Binding.LifeTime
import Gapscript.Expr.Reading
import Gapscript.Report.Record
import Gapscript.Value.Arithmetic

/-!
# The state of a program

A stack of frames with the bindings of each, the watches attached to them, the heap, the line and
the time that life times are measured against, and what the program has written so far.
-/

namespace Gapscript

/-- A binding of a name to a value. A hoisted one was made ahead of the line that declares it. -/
structure Variable where
  name : String
  value : Value
  mutability : Mutability
  life : LifeTime
  line : Int
  hoisted : Bool
  window : Window
deriving Inhabited

/-- The bindings of one block or call. -/
structure Frame where
  vars : List Variable := []
  funcs : List FunctionRef := []
deriving Inhabited

/-- A guard as a tree, and the text it was read from. -/
structure Guard where
  tree : Expr
  text : Text
  pos : Position
deriving Inhabited

/-- A body and the guard it depends on; the body of a trailing `else` has none. -/
structure Branch where
  guard : Option Guard
  body : Cursor
deriving Inhabited

/-- Branches that run when a variable read by their guards changes. `height` is the depth of the
frame that the watch belongs to. -/
structure Watch where
  branches : List Branch
  deps : List String
  snapshot : List Value
  firing : Bool
  line : Int
  height : Nat
deriving Inhabited

/-- The state of a program. Frames stand innermost first, watches outermost first. -/
structure State where
  frames : List Frame := [{}]
  depth : Nat := 0
  maxDepth : Int := 0
  line : Int := 1
  now : Int := 0
  ticking : Bool := false
  watches : List Watch := []
  heap : Heap := {}
  identities : Nat := 0
  hoistedFunctions : List Nat := []
  produced : Array Value := #[]
  output : String := ""
  records : Array Record := #[]
deriving Inhabited

namespace Frame

/-- The variable of a name, alive or not. -/
def binding? (f : Frame) (name : String) : Option Variable :=
  f.vars.find? (·.name = name)

/-- The function bound to a name. -/
def function? (f : Frame) (name : String) : Option FunctionRef :=
  f.funcs.find? (·.code.name = name)

/-- Replaces the variable of the same name, or adds one. -/
def putVariable (v : Variable) : List Variable → List Variable
  | [] => [v]
  | w :: ws => if w.name = v.name then v :: ws else w :: putVariable v ws

/-- Replaces the function of the same name, or adds one. -/
def putFunction (f : FunctionRef) : List FunctionRef → List FunctionRef
  | [] => [f]
  | g :: gs => if g.code.name = f.code.name then f :: gs else g :: putFunction f gs

/-- Gives the variable of a name another value. -/
def assign (name : String) (value : Value) : List Variable → List Variable
  | [] => []
  | w :: ws => if w.name = name then { w with value := value } :: ws else w :: assign name value ws

end Frame

namespace State

/-! ## Frames -/

/-- The state with a function applied to the innermost frame. -/
def modifyTop (s : State) (f : Frame → Frame) : State :=
  match s.frames with
  | top :: rest => { s with frames := f top :: rest }
  | [] => { s with frames := [f {}] }

/-- Enters a new frame, unless the limit is reached; a limit of zero or less is none. -/
def push (s : State) : Except TypeFault State :=
  if s.maxDepth > 0 ∧ (s.depth : Int) ≥ s.maxDepth then .error (.callDepth s.maxDepth)
  else .ok { s with frames := {} :: s.frames, depth := s.depth + 1 }

/-- Leaves the innermost frame, unless it is the only one. -/
def pop? (s : State) : Option State :=
  match s.depth, s.frames with
  | depth + 1, _ :: rest =>
    some { s with
      frames := rest
      depth := depth
      watches := s.watches.filter fun w => w.height ≤ depth }
  | _, _ => none

/-- What is said about leaving the only frame. -/
def popRefused : String := "noodles: pop of the global scope"

/-! ## Bindings -/

/-- The variable is alive on the current line at the current time. -/
def alive (s : State) (v : Variable) : Bool := !v.window.expired s.line s.now

/-- The live variable of a name in a frame. -/
def liveIn (s : State) (f : Frame) (name : String) : Option Variable :=
  (f.binding? name).filter s.alive

/-- Binds a name in the innermost frame. -/
def declare (s : State) (name : String) (value : Value) (mutability : Mutability)
    (life : LifeTime) : State :=
  s.modifyTop fun f =>
    { f with
      vars := Frame.putVariable
        ⟨name, value, mutability, life, s.line, false, life.window s.line s.now⟩ f.vars }

/-- Binds a name ahead of the line that declares it. -/
def declareHoisted (s : State) (name : String) (value : Value) (mutability : Mutability)
    (life : LifeTime) (line : Int) : State :=
  let s := match value with
    | .function f => { s with hoistedFunctions := f.id :: s.hoistedFunctions }
    | _ => s
  s.modifyTop fun f =>
    { f with
      vars := Frame.putVariable
        ⟨name, value, mutability, life, line, true, life.window line s.now⟩ f.vars }

/-- Binds a function under its own name in the innermost frame. -/
def define (s : State) (fn : FunctionRef) : State :=
  s.modifyTop fun f => { f with funcs := Frame.putFunction fn f.funcs }

/-- The innermost live variable of a name. -/
def lookupVariable (s : State) (name : String) : Option Variable :=
  s.frames.findSome? fun f => s.liveIn f name

/-- The innermost function bound to a name. -/
def lookupFunction (s : State) (name : String) : Option FunctionRef :=
  s.frames.findSome? fun f => f.function? name

/-- Something callable in a list of frames. -/
def callableIn (s : State) (strict : Bool) (name : String) : List Frame → Option FunctionRef
  | [] => none
  | f :: fs =>
    match s.liveIn f name with
    | some ⟨_, .function fn, _, _, _, _, _⟩ => some fn
    | some _ =>
      if strict then none else (f.function? name).orElse fun _ => callableIn s strict name fs
    | none => (f.function? name).orElse fun _ => callableIn s strict name fs

/-- Something that can be called by a name: a function, or a variable that holds one. A strict
look-up ends at a live variable that holds anything else, a loose one goes on to functions. -/
def lookupCallable (s : State) (strict : Bool) (name : String) : Option FunctionRef :=
  s.callableIn strict name s.frames

/-- Gives the innermost live variable of a name another value. -/
def assignIn (s : State) (name : String) (value : Value) : List Frame → List Frame
  | [] => []
  | f :: fs =>
    if (s.liveIn f name).isSome then { f with vars := Frame.assign name value f.vars } :: fs
    else f :: assignIn s name value fs

/-- Gives the innermost live variable of a name another value. -/
def assign (s : State) (name : String) (value : Value) : State :=
  { s with frames := s.assignIn name value s.frames }

/-- What names stand for in the state. -/
def names (s : State) : Names where
  value? name := (s.lookupVariable name).map (·.value)
  callee? strict name := s.lookupCallable strict name

/-- The names of live variables and of functions, each once, innermost first. -/
def visibleNames (s : State) : List String :=
  let all := s.frames.flatMap fun f =>
    (f.vars.filter s.alive).map (·.name) ++ f.funcs.map (·.code.name)
  all.eraseDups

/-- The value of a variable, undefined if there is none. -/
def valueOf (s : State) (name : String) : Value :=
  match s.lookupVariable name with
  | some v => v.value
  | none => .undefined

/-! ## Identities and records -/

/-- A function with an identity of its own. -/
def newFunction (s : State) (f : Function) : FunctionRef × State :=
  (⟨s.identities, f⟩, { s with identities := s.identities + 1 })

/-- A symbol with an identity of its own. -/
def newSymbol (s : State) (description : String) : Symbol × State :=
  (⟨s.identities, description⟩, { s with identities := s.identities + 1 })

/-- A new object on the heap. -/
def newObject (s : State) (o : Object) : Value × State :=
  let (ref, heap) := s.heap.alloc o
  (.object ref, { s with heap := heap })

/-- The state with one more record. -/
def record (s : State) (r : Record) : State := { s with records := s.records.push r }

/-- The state with more output. -/
def write (s : State) (text : String) : State := { s with output := s.output ++ text }

end State

end Gapscript
