import Gapscript.Text.Blank

/-!
# History

The lines of earlier sessions, one to a line of a file.
-/

namespace Gapscript

/-- The lines typed so far, oldest first. -/
structure History where
  lines : List String := []
deriving DecidableEq, Inhabited

namespace History

/-- How many lines a saved history keeps. -/
def limit : Nat := 1000

/-- The longest line that can be read back, in bytes with its line end. -/
def lineLimit : Nat := 65536

/-- Adds a line without the white space around it, unless it is blank, holds a line end or repeats
the line before. -/
def write (h : History) (line : String) : History :=
  let line := Text.trimString line
  if line = "" || line.toList.contains '\n' then h
  else if h.lines.getLast? = some line then h
  else ⟨h.lines ++ [line]⟩

/-- The line of an index. -/
def get (h : History) (i : Int) : Except String String :=
  match (if i < 0 then none else h.lines[i.toNat]?) with
  | some line => .ok line
  | none => .error ("history index " ++ toString i ++ " out of range")

/-- The text that is saved: the last lines, each with a line end. -/
def save (h : History) : String :=
  "\n".intercalate (h.lines.drop (h.lines.length - limit)) ++ "\n"

/-- A line without a carriage return at its end. -/
def dropReturn (t : Text) : Text :=
  if t.getLast? = some '\r' then t.dropLast else t

/-- The history saved in a text. Reading stops at a line that is too long. -/
def ofText (text : String) : History :=
  let lines := (text.toList.splitOn '\n').takeWhile fun l => Text.bytes l < lineLimit
  ⟨(lines.map fun l => String.ofList (dropReturn l)).filter (· ≠ "")⟩

end History

end Gapscript
