import Gapscript.Lexical.Quote
import Gapscript.Text.Blank

/-!
# Brackets

Finding where a bracketed piece of source ends without parsing what is inside. Quoted strings,
escaped characters and, where comments count as white space, comments are passed over in one piece,
so brackets in them do not count.
-/

namespace Gapscript.Lexical

/-- The length of a piece at the start of a text that hides what is in it: a quoted string or an
escaped character. -/
def hidden? : Text → Option Nat
  | '\\' :: [] => some 1
  | '\\' :: _ :: _ => some 2
  | t => quotedLength? t

/-- The length of a piece that hides what is in it, a comment with the white space after it
included. -/
def hiddenOrComment? (t : Text) : Option Nat :=
  if startsComment t then some (gap t) else hidden? t

/-- The number of characters before the brace that closes `depth` open ones, after passing over
`hidden` characters. -/
def blockLength (depth : Nat) : (hidden : Nat) → Text → Option Nat
  | _, [] => none
  | n + 1, _ :: cs => (blockLength depth n cs).map (· + 1)
  | 0, c :: cs =>
    match hiddenOrComment? (c :: cs) with
    | some n => (blockLength depth (n - 1) cs).map (· + 1)
    | none =>
      if c == '\x7b' then (blockLength (depth + 1) 0 cs).map (· + 1)
      else if c == '\x7d' then
        if depth ≤ 1 then some 0 else (blockLength (depth - 1) 0 cs).map (· + 1)
      else (blockLength depth 0 cs).map (· + 1)

/-- A braced block: the cursor over its body alone, and the cursor after it. -/
def block (c : Cursor) : Except ParseError (Cursor × Cursor) :=
  match c.consume? "\x7b" with
  | none => .error (noMatch c "expected '\x7b'")
  | some start =>
    match blockLength 1 0 start.rest with
    | some n => .ok ({ start with rest := start.rest.take n }, start.skip (n + 1))
    | none => .error (unexpected c "unterminated block")

/-- A bracket that opens. -/
def opensBracket (c : Char) : Bool := c == '\x7b' || c == '['

/-- A bracket that closes. -/
def closesBracket (c : Char) : Bool := c == '\x7d' || c == ']'

/-- The length of the source of an expression: up to the end of the statement, where `term` stops,
or a closing bracket that it did not open. -/
def sourceLength (term : Terminator) (depth : Nat) : (hidden : Nat) → Text → Nat
  | _, [] => 0
  | n + 1, _ :: cs => sourceLength term depth n cs + 1
  | 0, c :: cs =>
    if depth == 0 && (Terminator.statement (c :: cs) || term (c :: cs)) then 0
    else match hidden? (c :: cs) with
      | some n => sourceLength term depth (n - 1) cs + 1
      | none =>
        if opensBracket c then sourceLength term (depth + 1) 0 cs + 1
        else if closesBracket c then
          if depth == 0 then 0 else sourceLength term (depth - 1) 0 cs + 1
        else sourceLength term depth 0 cs + 1

/-- The source of an expression as text. -/
def expressionSource (term : Terminator) (c : Cursor) : Text × Cursor :=
  let n := sourceLength term 0 0 c.rest
  (c.rest.take n, c.skip n)

/-- The brackets opened in a text less those closed. -/
def openBrackets (depth : Int) : (hidden : Nat) → Text → Int
  | _, [] => depth
  | n + 1, _ :: cs => openBrackets depth n cs
  | 0, c :: cs =>
    match hiddenOrComment? (c :: cs) with
    | some n => openBrackets depth (n - 1) cs
    | none =>
      if opensBracket c then openBrackets (depth + 1) 0 cs
      else if closesBracket c then openBrackets (depth - 1) 0 cs
      else openBrackets depth 0 cs

/-- Every bracket that was opened has been closed. -/
def isComplete (t : Text) : Bool := openBrackets 0 0 t ≤ 0

end Gapscript.Lexical
