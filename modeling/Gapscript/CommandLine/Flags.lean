import Gapscript.Text.Quoted

/-!
# Flags

Flags come before everything else. A flag begins with one or two dashes, its value follows a `=` or,
unless the flag is a switch, is the next argument. `--` ends the flags.
-/

namespace Gapscript.CommandLine

/-- What the arguments ask for. -/
structure Request where
  debug : Bool := false
  log : String := ""
  settingsPath : String := ""
  watch : Bool := false
  noColor : Bool := false
  version : Bool := false
  /-- The arguments after the flags. -/
  rest : List String := []
deriving DecidableEq, Inhabited

/-- What is wrong with the flags. -/
inductive FlagFault where
  /-- Help was asked for. -/
  | help
  | malformed (arg : String)
  | unknown (name : String)
  | valueMissing (name : String)
  | notSwitch (name value : String)
deriving DecidableEq

/-- A flag, with what it does to a request. -/
inductive Flag where
  | switch (set : Bool → Request → Request)
  | value (set : String → Request → Request)

/-- The flag of a name. -/
def flag? : String → Option Flag
  | "debug" | "d" => some (.switch fun b r => { r with debug := b })
  | "log" => some (.value fun s r => { r with log := s })
  | "config" => some (.value fun s r => { r with settingsPath := s })
  | "watch" => some (.switch fun b r => { r with watch := b })
  | "no-color" => some (.switch fun b r => { r with noColor := b })
  | "version" => some (.switch fun b r => { r with version := b })
  | _ => none

/-- The value of a switch. -/
def switch? (s : String) : Option Bool :=
  if ["1", "t", "T", "TRUE", "true", "True"].contains s then some true
  else if ["0", "f", "F", "FALSE", "false", "False"].contains s then some false
  else none

/-- An argument by its form. -/
inductive Argument where
  | word
  | endOfFlags
  | malformed
  | flag (name : String) (value : Option String)
deriving DecidableEq

/-- A flag after its dashes. -/
def Argument.ofName (name : List Char) : Argument :=
  match name with
  | [] | '-' :: _ | '=' :: _ => malformed
  | name =>
    let (name, value) := name.span (· != '=')
    flag (String.ofList name) (if value.isEmpty then none else some (String.ofList (value.drop 1)))

/-- The form of an argument. -/
def Argument.ofString (arg : String) : Argument :=
  match arg.toList with
  | ['-', '-'] => endOfFlags
  | '-' :: '-' :: name => ofName name
  | '-' :: c :: name => ofName (c :: name)
  | _ => word

/-- A request with the arguments taken into account. -/
def Request.parse (r : Request) : List String → Except FlagFault Request
  | [] => .ok r
  | arg :: args =>
    match Argument.ofString arg with
    | .word => .ok { r with rest := arg :: args }
    | .endOfFlags => .ok { r with rest := args }
    | .malformed => .error (.malformed arg)
    | .flag name value =>
      match flag? name with
      | none => .error (if name = "help" ∨ name = "h" then .help else .unknown name)
      | some (.switch set) =>
        match value with
        | none => parse (set true r) args
        | some v =>
          match switch? v with
          | some b => parse (set b r) args
          | none => .error (.notSwitch name v)
      | some (.value set) =>
        match value, args with
        | some v, args => parse (set v r) args
        | none, v :: args => parse (set v r) args
        | none, [] => .error (.valueMissing name)

/-! ## Wording -/

/-- How the program is used. -/
def usage : String :=
  "Usage: noodles [options] [script.db]\n" ++
  "       noodles [options] < input.db\n" ++
  "       echo \"print 1!\" | noodles [options]\n" ++
  "\n" ++
  "Execute a script from a file or stdin, or start an interactive session.\n" ++
  "\n" ++
  "Options:\n" ++
  "  -d, -debug          Enable debug output\n" ++
  "  -log CATS           Debug categories, comma separated (parse, statement,\n" ++
  "                      expression, scope, watch, function, value, stdlib,\n" ++
  "                      repl, config, or all)\n" ++
  "  -config FILE        Load configuration from FILE (.yaml or .toml)\n" ++
  "                      (default: ~/.noodles/config.yaml)\n" ++
  "  -watch              Re-run the script whenever the file changes\n" ++
  "  -no-color           Disable coloured output\n" ++
  "  -version            Show version and exit\n" ++
  "\n" ++
  "Arguments:\n" ++
  "  script.db           Script file to execute (adds .db extension if needed)\n"

namespace FlagFault

/-- The wording of a fault, with the usage. -/
def message : FlagFault → String
  | help => usage
  | malformed arg => "bad flag syntax: " ++ arg ++ "\n" ++ usage
  | unknown name => "flag provided but not defined: -" ++ name ++ "\n" ++ usage
  | valueMissing name => "flag needs an argument: -" ++ name ++ "\n" ++ usage
  | notSwitch name value =>
    "invalid boolean value " ++ Text.quote value ++ " for -" ++ name ++ ": parse error\n" ++ usage

/-- The exit code; asking for help is no failure. -/
def exitCode : FlagFault → UInt32
  | help => 0
  | _ => 2

end FlagFault

end Gapscript.CommandLine
