import Gapscript.Run.Statement
import Gapscript.Report.Log
import Gapscript.Settings.Basic
import Gapscript.Session.Library

/-!
# The interpreter

One global state that every evaluation continues in, the native functions registered with it, and
the log its records go to. Lines typed interactively are kept, since places in them are numbered
from the first one on.
-/

namespace Gapscript

/-- The name of the source that typed lines belong to. -/
def typedSource : String := "<repl>"

/-- What an evaluation ends with: the values of its bare expressions, and the failure that ended it
if there was one. -/
structure Outcome where
  values : List Value := []
  error : Option Error := none
deriving Inhabited

/-- An interpreter. -/
structure Interpreter where
  settings : Settings
  log : Log
  functions : Array HostFunction := #[]
  natives : List FunctionRef := []
  state : State := {}
  typed : List String := []

namespace Interpreter

/-! ## Setting up -/

/-- The log that settings ask for, and a complaint about categories that do not exist. Without any
category all are enabled. -/
def logOf (settings : Settings) : Log × Array Record :=
  let log : Log := Log.setContextLines { enabled := settings.debug } settings.contextLines
  match settings.categories with
  | .ok [] => (log.enableAll, #[])
  | .ok cs => (cs.foldl Log.enable log, #[])
  | .error e => (log.enableAll, #[{ level := .warn, category := .config, message := e }])

/-- Binds a native function in the global frame. -/
def register (i : Interpreter) (f : HostFunction) : Interpreter :=
  let code : Function := { name := f.name, body := .native i.functions.size f.arity }
  let (ref, state) := i.state.newFunction code
  { i with
    functions := i.functions.push f
    natives := i.natives ++ [ref]
    state := (state.define ref).record
      { level := .debug, category := .stdlib
        message := "registered " ++ f.name ++ "/" ++ toString f.arity } }

/-- Forgets every binding made by programs. -/
def reset (i : Interpreter) : Interpreter :=
  let s := i.state
  let fresh : State :=
    { maxDepth := i.settings.maxScopeDepth
      now := s.now
      ticking := s.ticking
      heap := s.heap
      identities := s.identities
      hoistedFunctions := s.hoistedFunctions
      output := s.output
      records := s.records }
  { i with state := i.natives.foldl State.define fresh, typed := [] }

/-- A new interpreter with the standard library. Its clock stands still unless it is ticking. -/
def new (settings : Settings) (ticking : Bool) : Interpreter :=
  let (log, records) := logOf settings
  let state : State := { maxDepth := settings.maxScopeDepth, records := records, ticking := ticking }
  Library.standard.foldl register { settings := settings, log := log, state := state }

/-- What runs are given. -/
def host (i : Interpreter) (endCloses : Bool) : Host := ⟨i.functions, endCloses⟩

/-! ## Evaluating -/

/-- Runs something in the interpreter's state and collects the values it produces. -/
def collecting (i : Interpreter) (x : Run Unit) : Outcome × Interpreter :=
  match x { i.state with produced := #[] } with
  | .ok () s => ({ values := s.produced.toList }, { i with state := { s with produced := #[] } })
  | .error e s =>
    ({ values := s.produced.toList, error := some e }, { i with state := { s with produced := #[] } })

/-- Runs something that ends with a value, and looks at the watches afterwards. -/
def evaluating (i : Interpreter) (x : Run Value) : Outcome × Interpreter :=
  let run : Run Value := do
    let v ← x
    runWatches (i.host false)
    pure v
  match run i.state with
  | .ok v s => ({ values := [v] }, { i with state := s })
  | .error e s => ({ error := some e }, { i with state := s })

/-- Runs a source text. -/
def evaluate (i : Interpreter) (source file : String) : Outcome × Interpreter :=
  i.collecting do
    let _ ← runSource (i.host false) (Cursor.start source file)

/-- A character that typed input may end with without meaning anything to an expression. -/
def isTrailing (c : Char) : Bool := Text.isLineSpace c || c == '!' || c == '?'

/-- Runs typed input as statements. -/
def typedStatements (i : Interpreter) (input : String) (start : Position) : Outcome × Interpreter :=
  i.collecting do
    let _ ← runSource (i.host true) ⟨input.toList, start⟩

/-- Runs typed input. It is first tried as a single expression without bare words; anything else
runs as statements, where the end of the input may close the last one. -/
def evaluateTyped (i : Interpreter) (input : String) : Outcome × Interpreter :=
  let start : Position := { line := i.typed.length + 1, file := typedSource }
  let i := { i with
    typed := i.typed ++ input.splitOn "\n"
    state := { i.state with line := start.line } }
  let c : Cursor := ⟨Text.dropEnd isTrailing input.toList, start⟩
  match Reading.outcome (fullExpression i.state.names c) with
  | .ok e =>
    if e.hasImplicit then i.typedStatements input start
    else i.evaluating do
      Run.debug .repl "evaluating input as an expression"
      Run.locate (some c.pos) (runExpression (i.host false) e)
  | .error _ => i.typedStatements input start

/-- Calls a function that is visible in the global frame. -/
def call (i : Interpreter) (name : String) (args : List Value) : Outcome × Interpreter :=
  match i.state.lookupCallable false name with
  | none => ({ error := some (.runtime ⟨.functionNotFound name, none⟩) }, i)
  | some fn => i.evaluating (runCall (i.host false) fn args)

/-! ## Reporting -/

/-- The record of a failure with the source lines around it. -/
def errorRecord (i : Interpreter) (e : Error) (source : String) : Record :=
  let context := match e.pos? with
    | some p =>
      if !i.settings.showErrorContext then []
      else if p.file = typedSource then i.typed
      else source.splitOn "\n"
    | none => []
  match e with
  | .unparsable _ =>
    { level := .fatal, category := .parse, message := "Syntax error: " ++ e.message
      pos := e.pos?, context := context }
  | e => { level := .error, message := e.message, pos := e.pos?, context := context }

/-- Records a failure. -/
def report (i : Interpreter) (e : Error) (source : String) : Interpreter :=
  { i with state := i.state.record (i.errorRecord e source) }

/-- Takes what has been written to the output and what the log shows, and forgets both. -/
def drain (i : Interpreter) : String × String × Interpreter :=
  (i.state.output, i.log.renderAll i.state.records,
    { i with state := { i.state with output := "", records := #[] } })

end Interpreter

end Gapscript
