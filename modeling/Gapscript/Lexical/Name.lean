import Gapscript.Lexical.Layout
import Gapscript.Text.Quoted

/-!
# Names, keywords and terminators

A name is whatever stands between white space and punctuation. The scans here count characters of
a text; a cursor is then moved over what was counted.
-/

namespace Gapscript

namespace Terminator

/-- Never stops. -/
def never : Terminator := fun _ => false

/-- Stops at any of the given tokens. -/
def tokens (ts : List String) : Terminator := fun t => ts.any fun s => s.toList.isPrefixOf t

/-- Stops where either of two terminators does. -/
def or (a b : Terminator) : Terminator := fun t => a t || b t

/-- Stops at the end of a statement: `?`, or `!` unless it begins `!=`. -/
def statement : Terminator
  | '?' :: _ => true
  | '!' :: '=' :: _ => false
  | '!' :: _ => true
  | _ => false

/-- The punctuation that ends a name. -/
def nameStops : List Char := ".,[]\x7b\x7d:+-*/%^<>=!&|;?".toList

/-- Punctuation that ends a name. -/
def isNameStop (c : Char) : Bool := nameStops.contains c

/-- Stops at the end of a name. -/
def name : Terminator
  | c :: _ => isNameStop c
  | [] => false

end Terminator

namespace Lexical

/-- The length of the run without white space that `term` ends after its first character. -/
def wordLength (term : Terminator) : (first : Bool) → Text → Nat
  | _, [] => 0
  | first, c :: cs =>
    if isLayout c then 0
    else if !first && term (c :: cs) then 0
    else wordLength term false cs + 1

/-- The word under the cursor, up to white space or where `term` stops it. -/
def identifier (term : Terminator) (c : Cursor) : Except ParseError (String × Cursor) :=
  match wordLength term true c.rest with
  | 0 => .error ⟨.emptyIdentifier, "", some c.pos⟩
  | n => .ok (String.ofList (c.rest.take n), c.skip n)

/-- The name of a binding, which does not begin with punctuation. -/
def bindingName (c : Cursor) : Except ParseError (String × Cursor) :=
  match c.rest with
  | x :: _ =>
    if Terminator.isNameStop x || x == '(' || x == ')' then
      .error (noMatch c ("a name cannot start with " ++ Text.quoteSingle x))
    else identifier Terminator.name c
  | [] => identifier Terminator.name c

/-- The text up to where `term` stops, with the backslashes of escapes removed, and the number of
characters read. -/
def unescapeUntil (term : Terminator) : Text → Text × Nat
  | [] => ([], 0)
  | '\\' :: x :: cs =>
    if term ('\\' :: x :: cs) then ([], 0)
    else
      let (t, n) := unescapeUntil term cs
      (x :: t, n + 2)
  | c :: cs =>
    if term (c :: cs) then ([], 0)
    else
      let (t, n) := unescapeUntil term cs
      (c :: t, n + 1)

/-- The unescaped text up to where `term` stops, which is not empty. -/
def chunk (term : Terminator) (c : Cursor) : Except ParseError (Text × Cursor) :=
  match unescapeUntil term c.rest with
  | (_, 0) => .error (noMatch c "empty chunk")
  | (t, n) => .ok (t, c.skip n)

/-- A character that continues a word. -/
def isWordChar (c : Char) : Bool :=
  c == '_' || c.isDigit || c.isAlpha || 0x80 ≤ c.toNat

/-- The text begins with a character that continues a word. -/
def startsWord : Text → Bool
  | c :: _ => isWordChar c
  | [] => false

/-- The cursor after a keyword that does not run into a longer word. -/
def keyword? (word : String) (c : Cursor) : Option Cursor :=
  match c.consume? word with
  | some d => if startsWord d.rest then none else some d
  | none => none

/-- The number of exclamation marks that end a statement at the start of a text. -/
def marks : Text → Nat
  | '!' :: '=' :: _ => 0
  | '!' :: cs => marks cs + 1
  | _ => 0

/-- The cursor after the end of a statement, and whether it is the one that asks for a report. -/
def statementEnd (c : Cursor) : Except ParseError (Bool × Cursor) :=
  match c.rest with
  | '?' :: _ => .ok (true, c.next)
  | _ =>
    match marks c.rest with
    | 0 => .error (unexpected c "expected statement terminator")
    | n => .ok (false, c.skip n)

/-- The word takes its letters in order from `letters`, each at most once. -/
def takesLetters : (letters word : List Char) → Bool
  | _, [] => true
  | [], _ :: _ => false
  | l :: ls, w :: ws => if l = w then takesLetters ls ws else takesLetters ls (w :: ws)

/-- The word introduces a function: it begins with `f` and takes its letters in order from
`function`. -/
def isFunctionKeyword (word : String) : Bool :=
  match word.toList with
  | 'f' :: _ => takesLetters "function".toList word.toList
  | _ => false

end Lexical

end Gapscript
