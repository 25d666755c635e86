import Gapscript.Lexical.Name

/-!
# Quoted strings

A string is opened by any run of quote characters and closed by the same run; a backslash takes the
next character as it is. An even run of two equal halves is an empty string where nothing that
could be text follows.
-/

namespace Gapscript.Lexical

/-- A character that quotes. -/
def isQuote (c : Char) : Bool := c == '"' || c == '\''

/-- The text up to the closing run and the number of characters read, the run included. -/
def closeQuote (mark : List Char) : Text → Option (Text × Nat)
  | [] => none
  | '\\' :: x :: cs => (closeQuote mark cs).map fun (t, n) => (x :: t, n + 2)
  | c :: cs =>
    if mark.isPrefixOf (c :: cs) then some ([], mark.length)
    else (closeQuote mark cs).map fun (t, n) => (c :: t, n + 1)

/-- A run of quotes that opens and closes a string by itself. -/
def isEmptyPair (mark : List Char) : Bool :=
  let half := mark.length / 2
  mark.length % 2 == 0 && mark.take half == mark.drop half

/-- The text ahead cannot be the inside of a string. -/
def endsQuote : Text → Bool
  | c :: _ => isLayout c || Terminator.isNameStop c
  | [] => true

/-- The string at the start of a text and the number of characters it takes. -/
def quoted? (t : Text) : Option (Text × Nat) :=
  match t.takeWhile isQuote with
  | [] => none
  | q :: qs =>
    let mark := q :: qs
    let body := t.drop mark.length
    if isEmptyPair mark && endsQuote body then some ([], mark.length)
    else (closeQuote mark body).map fun (s, n) => (s, mark.length + n)

/-- The length of the string at the start of a text. -/
def quotedLength? (t : Text) : Option Nat := (quoted? t).map (·.2)

/-- The string under the cursor. -/
def quotedString (c : Cursor) : Except ParseError (Text × Cursor) :=
  match quoted? c.rest with
  | some (s, n) => .ok (s, c.skip n)
  | none => .error (noMatch c "unterminated string")

/-- The cursor after a string, if one starts here. -/
def skipQuoted? (c : Cursor) : Option Cursor := (quotedLength? c.rest).map fun n => c.skip n

end Gapscript.Lexical
