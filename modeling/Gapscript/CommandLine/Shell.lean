import Gapscript.Path

/-!
# The surroundings of the program

A shell is what the program can do with its surroundings: look at files, save one, read its input
and write. `World` is a shell in memory, whose files are known from the start.
-/

namespace Gapscript.CommandLine

/-- A path, in the working directory or below the home directory. -/
inductive Location where
  | here (path : String)
  | home (path : String)
deriving DecidableEq, Inhabited

/-- What the program can do with its surroundings. -/
structure Shell (m : Type → Type) where
  /-- The name of the home directory, if there is one. -/
  home : Option String
  look : Location → m PathTarget
  /-- Writes a file, with the directories it is in. -/
  save : Location → String → m Unit
  /-- The whole input, unless somebody is typing it. -/
  input : m (Option String)
  out : String → m Unit
  err : String → m Unit

/-! ## Files in memory -/

/-- Files by the parts of their paths. -/
abbrev Files := List (List String × String)

namespace Files

/-- The parts of a path. -/
def parts (path : String) : List String := path.splitOn "/"

/-- What stands at a path given by its parts. -/
def target (files : Files) (path : List String) : PathTarget :=
  match files.lookup path with
  | some content => .text content
  | none => if path.isEmpty || files.any fun f => path.isPrefixOf f.1 then .directory else .missing

/-- Follows the parts of a path from a place. Only directories lead on. -/
def walk (files : Files) (place : List String) : List String → PathTarget
  | [] => files.target place
  | part :: rest =>
    match files.target place with
    | .directory =>
      if part = "" ∨ part = "." then walk files place rest
      else if part = ".." then walk files place.dropLast rest
      else walk files (place ++ [part]) rest
    | .text _ => .blocked
    | t => t

/-- What a path leads to. There is nothing outside. -/
def look (files : Files) (path : String) : PathTarget :=
  if path = "" ∨ path.startsWith "/" then .missing else files.walk [] (parts path)

end Files

/-- Surroundings in memory. -/
structure World where
  here : Files := []
  home : Files := []
  input : String := ""
  output : String := ""
  errors : String := ""
deriving Inhabited

namespace World

/-- What is at a location. -/
def look (w : World) : Location → PathTarget
  | .here path => w.here.look path
  | .home path => w.home.look path

/-- The world with a new file. -/
def save (w : World) (content : String) : Location → World
  | .here path => { w with here := (Files.parts path, content) :: w.here }
  | .home path => { w with home := (Files.parts path, content) :: w.home }

/-- The world as a shell. -/
def shell : Shell (StateM World) where
  home := some "~"
  look := fun l => return (← get).look l
  save := fun l content => modify fun w => w.save content l
  input := return some (← get).input
  out := fun s => modify fun w => { w with output := w.output ++ s }
  err := fun s => modify fun w => { w with errors := w.errors ++ s }

end World

end Gapscript.CommandLine
