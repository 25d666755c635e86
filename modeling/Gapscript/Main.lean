import Gapscript.CommandLine.Program
import Gapscript.Session.Repl
import Gapscript.Session.History

/-!
# The executable

The program with the files, the streams and the keyboard of the machine.
-/

namespace Gapscript.Main

open CommandLine

/-- What a path leads to on the machine. A directory can be opened and only fails to be read, so its
fault carries no name. -/
def look (path : String) : IO PathTarget := do
  try
    return .text (← IO.FS.readFile path)
  catch e =>
    match e with
    | .inappropriateType (some _) .. => return .blocked
    | .inappropriateType none .. => return .directory
    | _ => return .missing

/-- The place of a location. -/
def place (home : Option String) : Location → String
  | .here path => path
  | .home path => home.getD "" ++ "/" ++ path

/-- The directories that a path goes through. -/
def parent (path : String) : String :=
  "/".intercalate (path.splitOn "/").dropLast

/-- The shell of the machine. -/
def shell (home : Option String) (input : IO.FS.Stream) : Shell IO where
  home := home
  look := fun l => look (place home l)
  save := fun l content => do
    let path := place home l
    try
      IO.FS.createDirAll (parent path)
      IO.FS.writeFile path content
    catch _ => pure ()
  input := do
    if ← input.isTty then return none
    let mut text := ""
    let mut line ← input.getLine
    while line ≠ "" do
      text := text ++ line
      line ← input.getLine
    return some text
  out := fun s => do (← IO.getStdout).putStr s
  err := fun s => do (← IO.getStderr).putStr s

/-- Takes lines until the session ends. -/
partial def interact (input : IO.FS.Stream) (r : Repl) (h : History) : IO History := do
  IO.print r.prompt
  (← IO.getStdout).flush
  let line ← input.getLine
  if line = "" then return h
  let line := String.ofList (Text.dropEnd (fun c => c == '\n' || c == '\r') line.toList)
  let (goesOn, r) := r.handleLine line
  let (out, err, i) := r.interpreter.drain
  IO.print out
  IO.eprint err
  if goesOn then interact input { r with interpreter := i } (h.write line) else return h

/-- The history file in the home directory. -/
def historyFile : String := ".noodles/history"

/-- An interactive session whose lines are kept for the next one. -/
def session (sh : Shell IO) (input : IO.FS.Stream) (settings : Settings) : IO UInt32 := do
  IO.eprintln ("noodles " ++ version ++ " - type exit or quit to leave")
  let h ← match ← sh.look (.home historyFile) with
    | .text content => pure (History.ofText content)
    | _ => pure {}
  let h ← interact input { interpreter := Interpreter.new settings true } h
  sh.save (.home historyFile) h.save
  return 0

/-- Runs a script again whenever its text has changed. -/
partial def watch (sh : Shell IO) (settings : Settings) (path : String) (last : Option String) :
    IO UInt32 := do
  let text := match ← sh.look (.here path) with
    | .text content => some content
    | _ => last
  if text ≠ last then
    if last.isSome then IO.eprintln ("--- " ++ path ++ " changed, re-running")
    discard <| runScript sh settings path
  IO.sleep 200
  watch sh settings path text

end Gapscript.Main

/-- Runs the program. -/
def main (args : List String) : IO UInt32 := do
  let input ← IO.getStdin
  let home := (← IO.getEnv "HOME").filter (· ≠ "")
  let sh := Gapscript.Main.shell home input
  match ← Gapscript.CommandLine.run sh args with
  | .exit code => return code
  | .interactive settings => Gapscript.Main.session sh input settings
  | .watching settings path => Gapscript.Main.watch sh settings path none
