import Gapscript.Text.Escaped
import Gapscript.Text.Blank

/-!
# Text in TOML

A text stands between single or double quotes on one line, or between three of them on any number of
lines. Only double quotes know escapes, and between three of them a backslash at the end of a line
joins it to the next text. Up to two quotes may stand right before the three that close.
-/

namespace Gapscript.Toml

open Text (isLineSpace)

/-- A character that ends a line. -/
def isLineEnd (c : Char) : Bool := c == '\n' || c == '\r'

/-- The escapes between double quotes. -/
def escapes : Text.Escapes where
  letter := fun c => [('b', '\x08'), ('t', '\t'), ('n', '\n'), ('f', '\x0c'), ('r', '\r'),
    ('"', '"'), ('\\', '\\')].lookup c
  width := fun c => [('u', 4), ('U', 8)].lookup c

/-- The text up to the closing double quote with its escapes, and what follows the quote. -/
def shortSpan : Text → Option (Text × Text)
  | [] => none
  | '"' :: t => some ([], t)
  | '\\' :: c :: t => (shortSpan t).map fun (cs, rest) => ('\\' :: c :: cs, rest)
  | c :: t => if isLineEnd c then none else (shortSpan t).map fun (cs, rest) => (c :: cs, rest)

/-- The text after an opening double quote; it ends on the same line. -/
def basic (t : Text) : Option (Text × Text) := do
  let (cs, rest) ← shortSpan t
  some (← escapes.decode cs, rest)

/-- The text after an opening single quote; nothing is escaped in it, and it ends on the same
line. -/
def literal (t : Text) : Option (Text × Text) :=
  let (cs, rest) := t.span fun c => c != '\'' && !isLineEnd c
  match rest with
  | '\'' :: rest => some (cs, rest)
  | _ => none

/-- How many quotes of a run of `n` belong to the text that the run closes. No text ends in more
than two quotes, except that after a backslash three may stand. -/
def quotesBefore? (afterBackslash : Bool) (n : Nat) : Option Nat :=
  if n ≤ 5 || (n == 6 && afterBackslash) then some (n - 3) else none

/-- The text up to three closing quotes, and what follows them. Escapes are kept as they stand;
there are none if the quotes are single ones. -/
def longSpan (mark : Char) (afterBackslash : Bool) (t : Text) : Option (Text × Text) :=
  match t with
  | [] => none
  | c :: r =>
    if c = '\\' ∧ mark = '"' then
      match r with
      | d :: r => (longSpan mark (d == '\\') r).map fun (cs, rest) => (c :: d :: cs, rest)
      | [] => none
    else if c = mark then
      let run := r.takeWhile (· == mark)
      if run.length < 2 then
        (longSpan mark false (r.drop run.length)).map fun (cs, rest) => (c :: run ++ cs, rest)
      else
        (quotesBefore? afterBackslash (run.length + 1)).map fun n =>
          (List.replicate n mark, r.drop run.length)
    else (longSpan mark false r).map fun (cs, rest) => (c :: cs, rest)
termination_by t.length
decreasing_by all_goals simp; try omega

/-- A line end right after opening quotes does not count. -/
def dropFirstLineEnd : Text → Text
  | '\n' :: t => t
  | '\r' :: '\n' :: t => t
  | t => t

/-- A text whose lines are joined where a backslash ends them. All space up to the next text goes
with it. -/
def joinLines (t : Text) : Text :=
  match t with
  | [] => []
  | '\\' :: '\\' :: t => '\\' :: '\\' :: joinLines t
  | '\\' :: t =>
    if (t.takeWhile isLineSpace).contains '\n' then joinLines (t.dropWhile isLineSpace)
    else '\\' :: joinLines t
  | c :: t => c :: joinLines t
termination_by t.length
decreasing_by
  · simp only [List.length_cons]; omega
  · have shorter := (List.dropWhile_suffix isLineSpace (l := t)).length_le
    simp only [List.length_cons]; omega
  · simp only [List.length_cons]; omega
  · simp only [List.length_cons]; omega

/-- The text after three double quotes. -/
def longBasic (t : Text) : Option (Text × Text) := do
  let (cs, rest) ← longSpan '"' false t
  some (← escapes.decode (joinLines (dropFirstLineEnd cs)), rest)

/-- The text after three single quotes. -/
def longLiteral (t : Text) : Option (Text × Text) :=
  (longSpan '\'' false t).map fun (cs, rest) => (dropFirstLineEnd cs, rest)

/-- A text value after its quotes have told which kind it is, and what follows it. -/
def text? : Text → Option (Option (Text × Text))
  | '"' :: '"' :: '"' :: t => some (longBasic t)
  | '\'' :: '\'' :: '\'' :: t => some (longLiteral t)
  | '"' :: t => some (basic t)
  | '\'' :: t => some (literal t)
  | _ => none

end Gapscript.Toml
