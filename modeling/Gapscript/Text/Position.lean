/-!
# Positions

A place in a source text: line and column count from one, the offset counts the bytes before it.
Columns count characters, so that a caret can be set under any character of the line.
-/

namespace Gapscript

/-- A place in a source text; `length` is the extent an error report underlines. -/
structure Position where
  line : Int := 1
  column : Int := 1
  offset : Int := 0
  length : Int := 0
  file : String := ""
deriving DecidableEq, Inhabited

namespace Position

/-- The name of the source, with a stand-in for text that has none. -/
def source (p : Position) : String :=
  if p.file = "" then "<input>" else p.file

/-- The place as `file:line:column`. -/
def describe (p : Position) : String :=
  p.source ++ ":" ++ toString p.line ++ ":" ++ toString p.column

/-- A place that may be missing. -/
def describe? : Option Position → String
  | none => "<unknown>"
  | some p => p.describe

/-- The place after one character. -/
def after (p : Position) (c : Char) : Position :=
  if c = '\n' then
    { p with line := p.line + 1, column := 1, offset := p.offset + c.utf8Size }
  else
    { p with column := p.column + 1, offset := p.offset + c.utf8Size }

/-- The place after a text. -/
def afterText (p : Position) (text : List Char) : Position :=
  text.foldl after p

@[simp] theorem afterText_nil (p : Position) : p.afterText [] = p := rfl

@[simp] theorem afterText_cons (p : Position) (c : Char) (cs : List Char) :
    p.afterText (c :: cs) = (p.after c).afterText cs := rfl

theorem afterText_append (p : Position) (s t : List Char) : p.afterText (s ++ t) = (p.afterText s).afterText t :=
  List.foldl_append

@[simp] theorem after_file (p : Position) (c : Char) : (p.after c).file = p.file := by
  unfold after; split <;> rfl

@[simp] theorem afterText_file (p : Position) (s : List Char) : (p.afterText s).file = p.file := by
  induction s generalizing p with
  | nil => rfl
  | cons c cs ih => rw [afterText_cons, ih, after_file]

end Position

end Gapscript
