import Gapscript.Session.Interpreter

/-!
# Interactive sessions

Lines are collected until every bracket is closed, and then evaluated together. The value of the
last bare expression is shown.
-/

namespace Gapscript

/-- An interactive session: an interpreter and the lines of unfinished input. -/
structure Repl where
  interpreter : Interpreter
  pending : List String := []

namespace Repl

/-- The words that end a session. -/
def isFarewell (line : String) : Bool :=
  let word := Text.lower (Text.trimString line)
  word = "exit" || word = "quit"

/-- A line without anything on it. -/
def isBlankLine (line : String) : Bool := Text.trimString line = ""

/-- The prompt for the next line; unfinished input has one of its own. -/
def prompt (r : Repl) : String :=
  if r.pending.isEmpty then "noodles> " else "... "

/-- What is shown for a value; nothing for undefined. -/
def resultText (h : Heap) : Value → String
  | .undefined => ""
  | .string s => "= " ++ Text.quote s ++ "\n"
  | v => "= " ++ h.display v ++ "\n"

/-- Evaluates finished input and shows what comes of it. -/
def evaluateInput (i : Interpreter) (input : String) : Interpreter :=
  match i.evaluateTyped input with
  | ({ error := some e, .. }, i) => i.report e input
  | ({ values, .. }, i) =>
    match values.getLast? with
    | some v => { i with state := i.state.write (resultText i.state.heap v) }
    | none => i

/-- Takes one line. Returns whether the session goes on. -/
def handleLine (r : Repl) (line : String) : Bool × Repl :=
  if r.pending.isEmpty && isFarewell line then (false, r)
  else if r.pending.isEmpty && isBlankLine line then (true, r)
  else
    let pending := r.pending ++ [line]
    let input := "\n".intercalate pending
    if Lexical.isComplete input.toList then
      (true, { interpreter := evaluateInput r.interpreter input })
    else (true, { r with pending := pending })

end Repl

/-! ## Completion -/

/-- The words offered besides the names in force. -/
def completionWords : List String :=
  ["var", "const", "function", "return", "if", "else", "when", "true", "false", "null",
    "undefined", "Infinity", "NaN", "exit", "quit"]

/-- A character that can be part of a name. -/
def isNameChar (c : Char) : Bool := !(Lexical.isLayout c || Terminator.isNameStop c)

/-- The part of a name that ends at the end of a text. -/
def nameBefore (t : Text) : Text := (t.reverse.takeWhile isNameChar).reverse

/-- Strings in order, each once. -/
def sortedDistinct (ss : List String) : List String :=
  (ss.mergeSort fun a b => decide (a ≤ b)).eraseDups

/-- The word before a position of a line, and what would complete it. -/
def complete (s : State) (line : String) (pos : Nat) : String × List String :=
  let start := nameBefore (line.toList.take pos)
  let candidates := sortedDistinct (completionWords ++ s.visibleNames)
  let endings := candidates.filterMap fun name =>
    if start.isPrefixOf name.toList && start.length < name.toList.length then
      some (String.ofList (name.toList.drop start.length))
    else none
  (String.ofList start, endings)

end Gapscript
