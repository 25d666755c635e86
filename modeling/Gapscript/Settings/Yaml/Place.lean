import Gapscript.Text.Blank

/-!
# Places in YAML

A place is the text still to be read and where it starts, which decides how lines nest and which
scalars can be keys. Besides line feed and carriage return, a line may end in one of three separators
of Unicode, and a pair of carriage return and line feed ends one line.
-/

namespace Gapscript.Yaml

open Text (isGap)

/-- A character that separates lines and stays in a text that is folded. -/
def isSeparator (c : Char) : Bool := c == '\u2028' || c == '\u2029'

/-- A character that ends a line. -/
def isBreak (c : Char) : Bool := c == '\n' || c == '\r' || c == '\u0085' || isSeparator c

/-- A character between words or lines. -/
def isSpace (c : Char) : Bool := isGap c || isBreak c

/-- A line ends here, and not the text. -/
def breakNext (t : Text) : Bool := (t.head?.map isBreak).getD false

/-- The end or a character between words comes next. -/
def spaceNext (t : Text) : Bool := (t.head?.map isSpace).getD true

/-- What follows the end of a line. -/
def dropBreak : Text → Text
  | '\r' :: '\n' :: t => t
  | _ :: t => t
  | [] => []

/-- The line ends in a text, each as one character. -/
def breaksOf : Text → Text
  | [] => []
  | '\r' :: '\n' :: t => '\n' :: breaksOf t
  | c :: t => if isSeparator c then c :: breaksOf t else if isBreak c then '\n' :: breaksOf t
    else breaksOf t

/-- What line ends within a scalar stand for: one of them for a space, and more of them for one
less. -/
def folded : Text → Text
  | ['\n'] => [' ']
  | '\n' :: breaks => breaks
  | breaks => breaks

/-- The text begins with a mark between documents. -/
def markNext (t : Text) : Bool :=
  ("---".toList.isPrefixOf t || "...".toList.isPrefixOf t) && spaceNext (t.drop 3)

/-- The text still to be read, and where it starts. -/
structure Place where
  rest : Text
  line : Nat := 0
  column : Nat := 0
  index : Nat := 0
  /-- No line ended since the last word. -/
  afterWord : Bool := true

namespace Place

/-- The place after one character. -/
def next (p : Place) : Place :=
  match p.rest with
  | [] => p
  | c :: t =>
    let q := { p with rest := t, index := p.index + 1 }
    if isBreak c && !(c == '\r' && t.head? == some '\n') then
      { q with line := p.line + 1, column := 0, afterWord := false }
    else { q with column := p.column + 1, afterWord := p.afterWord || !isSpace c }

/-- The place after some characters. -/
def skip : Nat → Place → Place
  | 0, p => p
  | n + 1, p => skip n p.next

/-- The place where a later part of the text begins. -/
def upTo (rest : Text) (p : Place) : Place := p.skip (p.rest.length - rest.length)

/-- A mark between documents stands here. -/
def atMark (p : Place) : Bool := p.column == 0 && markNext p.rest

end Place

end Gapscript.Yaml
