import Gapscript.Text.Cursor

/-!
# Blank characters

The white space of Unicode, which is trimmed from numbers, lines and names, and the narrower set
that ends a line of source.
-/

namespace Gapscript.Text

/-- White space in the sense of Unicode. -/
def isBlank (c : Char) : Bool :=
  let n := c.toNat
  (9 ≤ n && n ≤ 13) || n == 0x20 || n == 0x85 || n == 0xA0 || n == 0x1680 ||
    (0x2000 ≤ n && n ≤ 0x200A) || n == 0x2028 || n == 0x2029 || n == 0x202F || n == 0x205F ||
    n == 0x3000

theorem isBlank_of_isWhitespace {c : Char} (h : c.isWhitespace = true) : isBlank c = true := by
  simp only [Char.isWhitespace, Bool.or_eq_true, decide_eq_true_eq] at h
  rcases h with ((h | h) | h) | h <;> subst h <;> decide

/-- A text without the characters of `p` at its end. -/
def dropEnd (p : Char → Bool) (t : Text) : Text :=
  (t.reverse.dropWhile p).reverse

/-- A text without white space around it. -/
def trim (t : Text) : Text :=
  dropEnd isBlank (t.dropWhile isBlank)

/-- A space or a tab. -/
def isGap (c : Char) : Bool := c == ' ' || c == '\t'

/-- A gap or the end comes next. -/
def gapNext (t : Text) : Bool := (t.head?.map isGap).getD true

/-- A space, a tab or an end of line. -/
def isLineSpace (c : Char) : Bool :=
  c == ' ' || c == '\t' || c == '\r' || c == '\n'

/-- A text without spaces, tabs and line ends at its end. -/
def trimLine (t : Text) : Text :=
  dropEnd isLineSpace t

/-- A string without white space around it. -/
def trimString (s : String) : String := String.ofList (trim s.toList)

end Gapscript.Text
