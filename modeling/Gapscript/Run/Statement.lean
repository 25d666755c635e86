import Gapscript.Run.Assign
import Gapscript.Run.Watch

/-!
# Running statements

Statements are read and run one at a time: each is read against the bindings that the ones before
it left behind. After each statement the watches are looked at. Declarations with a life before
their own line are bound when the first line of that life is reached.
-/

namespace Gapscript

/-- What a statement leaves behind. -/
inductive Flow where
  | next
  | produced (v : Value)
  | returned (v : Value)
deriving Inhabited

/-- The flow after a body that may have returned. -/
def Flow.ofResult : Option Value → Flow
  | some v => .returned v
  | none => .next

section Statements

variable (host : Host) (inner : Inner)

/-- Reports a value where a statement asks for it. -/
def reportValue (debug : Bool) (line : Int) (label : String) (v : Value) : Run Unit := do
  if debug then
    let s ← get
    Run.log .notice .statement
      ("line " ++ toString line ++ ": " ++ (if label = "" then "" else label ++ " = ") ++
        s.heap.describe v)

/-- A life time as it follows a name in a record. -/
def lifeSuffix (life : LifeTime) : String :=
  if life.isLimited then " " ++ life.describe else ""

/-- Declares a variable. A hoisted declaration was bound before and ends here. -/
def runDeclaration (line : Int) (h : Header) (value : Expr) (debug : Bool) : Run Unit := do
  if h.life.isHoisted then
    Run.debug .scope ("hoisted " ++ h.name ++ " ends at line " ++ toString line)
  else
    let v ← eval host inner value
    modify fun s => s.declare h.name v h.mutability h.life
    Run.debug .scope
      ("declared " ++ h.mutability.describe ++ " " ++ h.name ++ lifeSuffix h.life ++ " = " ++
        (← Run.display v))
    reportValue debug line h.name v

/-- Runs a statement that starts on a line. -/
def perform (collect : Bool) (line : Int) : Statement → Run Flow
  | .declaration h value debug => do
    runDeclaration host inner line h value debug
    pure .next
  | .assignment a debug => do
    let v ← runAssignment host inner a
    reportValue debug line a.name v
    pure .next
  | .block body => return .ofResult (← runBlock inner collect body)
  | .conditional bs => return .ofResult (← runBranches host inner collect bs)
  | .watch bs deps => do
    modify fun s => s.addWatch bs deps line
    Run.debug .watch
      ("watching " ++ ", ".intercalate deps ++ " on line " ++ toString line)
    pure .next
  | .function fn => do
    modify fun s =>
      let (f, s) := s.newFunction fn
      s.define f
    Run.debug .function ("defined " ++ fn.name ++ "(" ++ ", ".intercalate fn.params ++ ")")
    pure .next
  | .giveBack value debug => do
    let v ← match value with
      | some e => eval host inner e
      | none => pure .undefined
    Run.debug .function ("return " ++ (← Run.display v))
    reportValue debug line "return" v
    pure (.returned v)
  | .call value debug => do
    let v ← eval host inner value
    reportValue debug line "" v
    pure .next
  | .expression value debug => do
    let v ← eval host inner value
    reportValue debug line "" v
    pure (.produced v)

/-- Reads the statement under the cursor and runs it. -/
def runStatement (collect : Bool) (c : Cursor) : Run (Flow × Cursor) := do
  modify fun s => { s with line := c.pos.line }
  let s ← get
  match statement ⟨s.names, host.endCloses⟩ c with
  | .error e => throw e
  | .ok (stmt, d) =>
    let flow ← perform host inner collect c.pos.line stmt
    Run.debug .statement ("line " ++ toString c.pos.line ++ ": " ++ stmt.form)
    pure (flow, d)

/-- Evaluates and binds a hoisted declaration. -/
def bindHoist (h : Hoist) : Run Unit := do
  let (e, _) ← Run.read fun names => expression names Terminator.never h.initializer
  let v ← Run.locate (some h.initializer.pos) (eval host inner e)
  modify fun s => s.declareHoisted h.header.name v h.header.mutability h.header.life h.line
  Run.debug .scope
    ("hoisted " ++ h.header.mutability.describe ++ " " ++ h.header.name ++ " from line " ++
      toString h.line ++ " = " ++ (← Run.display v))

/-- Binds the hoisted declarations that are due on a line, each at most once. -/
def bindHoists (line : Int) : List Hoist → Run (List Hoist)
  | [] => pure []
  | h :: hs => do
    if h.bound || line < h.visibleFrom || line ≥ h.line then
      let rest ← bindHoists line hs
      pure (h :: rest)
    else
      bindHoist host inner h
      let rest ← bindHoists line hs
      pure ({ h with bound := true } :: rest)

/-- Binds what is due before the statement under the cursor. -/
def bindDue (hs : List Hoist) (c : Cursor) : Run (List Hoist) := do
  match hs with
  | [] => pure []
  | hs =>
    modify fun s => { s with line := c.pos.line }
    Run.locate (some c.pos) (bindHoists host inner c.pos.line hs)

/-- Keeps the value of a bare expression where values are collected. -/
def collectValue (collect : Bool) : Flow → Run Unit
  | .produced v => if collect then modify fun s => { s with produced := s.produced.push v } else pure ()
  | _ => pure ()

/-- Runs the statements of a text up to its end or a return. -/
def statementLoop (collect : Bool) : (fuel : Nat) → List Hoist → Cursor → Run (Option Value)
  | 0, _, _ => throw .exhausted
  | fuel + 1, hs, c => do
    let c := Lexical.skipGap c
    if c.atEnd then pure none
    else
      let hs ← bindDue host inner hs c
      let (flow, d) ← Run.locate (some c.pos) (runStatement host inner collect c)
      collectValue collect flow
      match flow with
      | .returned v => pure (some v)
      | _ =>
        checkWatches host inner
        statementLoop collect fuel hs d

/-- Runs the statements of a body. -/
def runStatements (collect : Bool) (c : Cursor) : Run (Option Value) :=
  statementLoop host inner collect (c.rest.length + 1) (hoists c) c

end Statements

/-! ## Frames within frames -/

mutual

/-- Runs statements with room for `n` nested frames. -/
def statementsAt (host : Host) : (n : Nat) → (collect : Bool) → Cursor → Run (Option Value)
  | 0, _, _ => throw .exhausted
  | n + 1, collect, c => runStatements host ⟨statementsAt host n, valueAt host n⟩ collect c

/-- Evaluates an expression with room for `n` nested frames. -/
def valueAt (host : Host) : (n : Nat) → Expr → Run Value
  | 0, _ => throw .exhausted
  | n + 1, e => eval host ⟨statementsAt host n, valueAt host n⟩ e

end

/-- What runs inside a frame with room for `n` more. -/
def innerAt (host : Host) (n : Nat) : Inner := ⟨statementsAt host n, valueAt host n⟩

/-- The room for nested frames that a state's limit leaves; without a limit, as many as can be
counted. -/
def State.room (s : State) : Nat :=
  if s.maxDepth > 0 then (s.maxDepth - s.depth).toNat else Number.greatestWord.toNat

/-- Runs a source text in a state. -/
def runSource (host : Host) (c : Cursor) : Run (Option Value) := fun s =>
  runStatements host (innerAt host s.room) true c s

/-- Evaluates an expression in a state. -/
def runExpression (host : Host) (e : Expr) : Run Value := fun s =>
  eval host (innerAt host s.room) e s

/-- Calls a function in a state. -/
def runCall (host : Host) (fn : FunctionRef) (args : List Value) : Run Value := fun s =>
  callFunction host (innerAt host s.room) fn args none s

/-- Looks at every watch of a state. -/
def runWatches (host : Host) : Run Unit := fun s =>
  checkWatches host (innerAt host s.room) s

end Gapscript
