import Gapscript.Report.Record
import Gapscript.Number.Numeral

/-!
# The log

Which records are shown, and the text they are shown as. Notices and everything above them always
show; the rest only while debugging, and of a named category only if it is enabled.
-/

namespace Gapscript

/-- What a log shows. `contextLines` is the number of source lines around the one an error is on. -/
structure Log where
  enabled : Bool := false
  categories : List Category := []
  contextLines : Int := 1
deriving Inhabited

namespace Log

/-- The log with another number of context lines; a negative one counts as none. -/
def setContextLines (l : Log) (n : Int) : Log := { l with contextLines := max 0 n }

/-- The log with a category enabled. -/
def enable (l : Log) (c : Category) : Log :=
  if l.categories.contains c then l else { l with categories := l.categories ++ [c] }

/-- The log with a category disabled. -/
def disable (l : Log) (c : Category) : Log :=
  { l with categories := l.categories.filter (· != c) }

/-- The log with every named category enabled. -/
def enableAll (l : Log) : Log := Category.all.foldl enable l

/-- The category is enabled. -/
def isEnabled (l : Log) (c : Category) : Bool := l.categories.contains c

/-- A record of a level and category is shown. -/
def shows (l : Log) (level : Level) (c : Category) : Bool :=
  match level with
  | .fatal | .error | .warn | .notice => true
  | .debug | .info | .trace => l.enabled && (c == .none || l.isEnabled c)

/-- What a shown record begins with. -/
def heading (level : Level) (c : Category) : String :=
  let suffix := if c = .none then "" else ":" ++ c.name
  match level with
  | .trace => "[TRACE" ++ suffix ++ "]"
  | .info => "[INFO" ++ suffix ++ "]"
  | .debug => "[DEBUG" ++ suffix ++ "]"
  | .notice => "[noodles" ++ suffix ++ " NOTICE]"
  | .warn => "[noodles" ++ suffix ++ " WARN]"
  | .error | .fatal => "[noodles" ++ suffix ++ " ERROR]"

/-- Text set to the right of a field of the given width. -/
def padLeft (width : Nat) (s : String) : String :=
  "".pushn ' ' (width - s.length) ++ s

/-- The first of the source lines shown around a place, counted from zero. -/
def firstShown (l : Log) (p : Position) : Int :=
  max 0 (Number.word (Number.word (p.line - 1) - l.contextLines))

/-- The number of the line after the last one shown, counted from zero. -/
def endShown (l : Log) (p : Position) (count : Nat) : Int :=
  min count (Number.word (p.line + l.contextLines))

/-- A source line with its number; under the line of the place stands a caret. -/
def contextLine (p : Position) (number : Int) (line : String) : String :=
  let here := number == p.line
  let shown := "\n  " ++ (if here then ">" else " ") ++ " " ++ padLeft 3 (toString number) ++
    " | " ++ line
  if here && p.column > 0 then
    shown ++ "\n        | " ++ "".pushn ' ' (p.column - 1).toNat ++
      "".pushn '^' (max 1 p.length).toNat
  else shown

/-- The source lines around a place. -/
def contextText (l : Log) (p : Position) (context : List String) : String :=
  let first := l.firstShown p
  let stop := l.endShown p context.length
  let shown := context.zipIdx.filterMap fun (line, i) =>
    if first ≤ (i : Int) ∧ (i : Int) < stop then some (contextLine p (i + 1) line) else none
  "\n" ++ String.join shown

/-- The text of a record. -/
def text (l : Log) (r : Record) : String :=
  let place := match r.pos with
    | none => ""
    | some p =>
      "\n  at line " ++ toString p.line ++ ", column " ++ toString p.column ++ " in " ++ p.source ++
        (if r.context.isEmpty then "" else l.contextText p r.context)
  heading r.level r.category ++ " " ++ r.message ++ place ++ "\n"

/-- What the log writes for a record. -/
def render (l : Log) (r : Record) : String :=
  if l.shows r.level r.category then l.text r else ""

/-- What the log writes for some records. -/
def renderAll (l : Log) (rs : Array Record) : String :=
  rs.foldl (fun out r => out ++ l.render r) ""

end Log

end Gapscript
