import Gapscript.Session.Interpreter

/-!
# A demonstration

A host program that offers functions of its own to scripts, takes the values of bare expressions,
calls a function that a script defined, and has a failure reported.
-/

namespace Gapscript.Demo

/-! ## Functions of the host -/

/-- Prints a greeting. -/
def greet : HostFunction := ⟨"greet", 1, fun call => do
  let name ← Run.display call.first
  modify fun s => s.write ("Hello, " ++ name ++ "!\n")
  pure .undefined⟩

/-- Puts a string in capital letters. -/
def upper : HostFunction := ⟨"upper", 1, fun call => do
  match call.first with
  | .string s => pure (.string (s.map Char.toUpper))
  | v => throw (call.fault ("upper: expected a string, got " ++ (← Run.display v)))⟩

/-- The square of the length of a vector. -/
def hypot : HostFunction := ⟨"hypot", 2, fun call =>
  match call.args with
  | [a, b] => pure (.number (a.toNumber * a.toNumber + b.toNumber * b.toNumber))
  | _ => pure .undefined⟩

/-! ## The examples -/

/-- Scripts with their titles. -/
def scripts : List (String × String) :=
  [("Calling a Go function", "greet \"Alice\"!"),
    ("Unknown words are strings", "greet Bob the builder!"),
    ("Whitespace decides precedence", "print 1 + 2*3!\nprint 1+2 * 3!"),
    ("Arguments are split on commas", "print hypot 3, 4!"),
    ("Nested calls", "print upper \"quiet\"!"),
    ("User functions", "function twice x => x * 2!\nprint twice twice 5!"),
    ("Watching a variable",
      "var var n = 0!\nwhen n > 2 \x7b print \"n passed 2\"! \x7d\nn = 1!\nn = 3!"),
    ("Arrays start at -1", "const const xs = [10, 20, 30]!\nprint xs[-1]!")]

/-- Writes to the output. -/
def say (i : Interpreter) (text : String) : Interpreter := { i with state := i.state.write text }

/-- Runs a script and reports its failure. -/
def runAndReport (i : Interpreter) (source : String) : Interpreter :=
  match i.evaluate source "" with
  | ({ error := some e, .. }, i) => i.report e source
  | (_, i) => i

/-- Runs numbered scripts under their titles. -/
def runScripts (i : Interpreter) (n : Nat) : List (String × String) → Interpreter
  | [] => i
  | (title, source) :: rest =>
    let i := say i ("Example " ++ toString n ++ ": " ++ title ++ "\n")
    runScripts (say (runAndReport i source) "\n") (n + 1) rest

/-- What the host calls the type of a value. -/
def hostType : Value → String
  | .undefined => "noodles.Undefined"
  | .null => "noodles.Null"
  | .boolean _ => "noodles.Boolean"
  | .number _ => "noodles.Number"
  | .bigint _ => "noodles.BigInt"
  | .string _ => "noodles.String"
  | .symbol _ => "*noodles.Symbol"
  | .object _ => "*noodles.Object"
  | .function _ => "*noodles.FunctionValue"

/-- Shows the values of bare expressions. -/
def showValues (i : Interpreter) : Interpreter :=
  let i := say i "Example 9: Values returned to the host\n"
  let (outcome, i) := i.evaluate "1 + 1!\n\"two\"!\n[3]!" ""
  let lines := outcome.values.map fun v =>
    "  " ++ i.state.heap.display v ++ " (" ++ hostType v ++ ")\n"
  say i (String.join lines ++ "\n")

/-- Calls a function of a script and one that does not exist. -/
def showCalls (i : Interpreter) : Interpreter :=
  let i := say i "Example 10: Calling a script function from Go\n"
  let (outcome, i) := i.call "twice" [.number (Number.ofInt 21)]
  let results := outcome.values.map fun v => "  twice 21 = " ++ i.state.heap.display v ++ "\n"
  let i := say i (String.join results)
  let (outcome, i) := i.call "missing" []
  let failures := match outcome.error with
    | some e => "  " ++ e.message ++ "\n"
    | none => ""
  say i (failures ++ "\n")

/-- Has a failure reported. -/
def showFailure (i : Interpreter) : Interpreter :=
  let i := say i "Example 11: Error reporting\n"
  say (runAndReport i "var var a = 1!\nassert a == 2!\nprint \"not reached\"!") "\n"

/-- What the demonstration writes to its output and to its errors. -/
def transcript : String × String :=
  let i := [greet, upper, hypot].foldl Interpreter.register
    (Interpreter.new { contextLines := 2 } true)
  let i := runScripts (say i "=== noodles Example ===\n\n") 1 scripts
  let i := say (showFailure (showCalls (showValues i))) "=== Examples Complete ===\n"
  let (output, errors, _) := i.drain
  (output, errors)

end Gapscript.Demo
