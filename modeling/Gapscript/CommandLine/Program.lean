import Gapscript.CommandLine.Flags
import Gapscript.CommandLine.Shell
import Gapscript.Settings.File
import Gapscript.Session.Interpreter

/-!
# The program

Runs a script from a file or from the input. Settings come from the file that the arguments name,
or from one in the home directory, which is made with the defaults if there is none; the arguments
have the last word.
-/

namespace Gapscript.CommandLine

/-- The version that the program reports. -/
def version : String := "dev"

/-- How the program goes on after the arguments have been dealt with. -/
inductive Ending where
  | exit (code : UInt32)
  /-- Lines are typed one by one. -/
  | interactive (settings : Settings)
  /-- A script runs again whenever it changes. -/
  | watching (settings : Settings) (path : String)

/-- The settings changed as the arguments ask. -/
def Request.adjust (r : Request) (s : Settings) : Settings :=
  { s with
    debug := s.debug || r.debug
    logCategories := if r.log = "" then s.logCategories else r.log.splitOn ","
    color := s.color && !r.noColor }

/-- The outcome of a run: what it wrote and whether it failed. -/
structure Transcript where
  output : String
  errors : String
  failed : Bool
deriving DecidableEq, Inhabited

/-- Runs a source in a new interpreter and reports its failure. -/
def execute (settings : Settings) (source file : String) : Transcript :=
  let (outcome, i) := (Interpreter.new settings true).evaluate source file
  let i := match outcome.error with
    | some e => i.report e source
    | none => i
  let (output, errors, _) := i.drain
  ⟨output, errors, outcome.error.isSome⟩

/-- The settings file in the home directory. -/
def homeSettings : String := ".noodles/config.yaml"

section

variable {m : Type → Type} [Monad m] (sh : Shell m)

/-- The settings to start from. -/
def startSettings (r : Request) : m (Except SettingsFault Settings) := do
  if r.settingsPath ≠ "" then
    return Settings.load r.settingsPath (← sh.look (.here r.settingsPath))
  match sh.home with
  | none => return .ok {}
  | some home =>
    match ← sh.look (.home homeSettings) with
    | .missing =>
      sh.save (.home homeSettings) (Settings.save {})
      return .ok {}
    | target => return Settings.load (home ++ "/" ++ homeSettings) target

/-- The path of a script: the one given, or else with the usual ending if it has none. -/
def findScript (name : String) : m (Option String) := do
  match ← sh.look (.here name) with
  | .text _ | .directory => return some name
  | _ =>
    if Path.ending name = "" then
      match ← sh.look (.here (name ++ ".db")) with
      | .text _ | .directory => return some (name ++ ".db")
      | _ => return none
    else return none

/-- Runs a source and writes what it wrote. -/
def runSource (settings : Settings) (source file : String) : m Ending := do
  let t := execute settings source file
  sh.out t.output
  sh.err t.errors
  return .exit (if t.failed then 1 else 0)

/-- Runs the script at a path. -/
def runScript (settings : Settings) (path : String) : m Ending := do
  match (← sh.look (.here path)).read path with
  | .ok source => runSource sh settings source path
  | .error fault =>
    sh.err ("Error reading script file: " ++ fault.message ++ "\n")
    return .exit 1

/-- Does what a request asks for with the settings it comes to. -/
def perform (r : Request) (settings : Settings) : m Ending := do
  match r.rest with
  | name :: _ =>
    match ← findScript sh name with
    | some path => if r.watch then return .watching settings path else runScript sh settings path
    | none =>
      sh.err ("Error: Script file not found: " ++ name ++ "\n")
      return .exit 1
  | [] =>
    match ← sh.input with
    | some source => runSource sh settings source ""
    | none => return .interactive settings

/-- The program. -/
def run (args : List String) : m Ending := do
  match Request.parse {} args with
  | .error fault =>
    sh.err fault.message
    return .exit fault.exitCode
  | .ok r =>
    if r.version then
      sh.out ("noodles version " ++ version ++ "\n")
      return .exit 0
    match ← startSettings sh r with
    | .error fault =>
      sh.err ("Error loading configuration: " ++ fault.message ++ "\n")
      return .exit 1
    | .ok settings => perform sh r (r.adjust settings)

end

end Gapscript.CommandLine
