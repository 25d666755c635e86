import Gapscript.Lexical.Quote
import Gapscript.Value.Basic
import Gapscript.Number.Numeral

/-!
# Literals

Keywords that name a value, numbers, big integers with an `n` after their digits, and quoted
strings.
-/

namespace Gapscript.Lexical

/-- The words that stand for a value. -/
def literalWords : List (String × Value) :=
  [("true", .boolean true), ("false", .boolean false), ("null", .null),
    ("undefined", .undefined), ("Infinity", .number (Number.infinity false)),
    ("NaN", .number Number.nan)]

/-- The first of some words under the cursor, with what it stands for. -/
def firstWord? {α : Type} (c : Cursor) : List (String × α) → Option (α × Cursor)
  | [] => none
  | (word, a) :: rest =>
    match keyword? word c with
    | some d => some (a, d)
    | none => firstWord? c rest

/-- The digits at the start of a text. -/
def digits (t : Text) : Text := t.takeWhile Char.isDigit

/-- The length of a fraction: a point and at least one digit. -/
def fractionLength : Text → Nat
  | '.' :: t =>
    match digits t with
    | [] => 0
    | ds => ds.length + 1
  | _ => 0

/-- The length of an exponent: a mark, an optional sign and at least one digit. -/
def exponentLength : Text → Nat
  | m :: t =>
    if m == 'e' || m == 'E' then
      let sign := match t with
        | '+' :: _ | '-' :: _ => 1
        | _ => 0
      match digits (t.drop sign) with
      | [] => 0
      | ds => ds.length + sign + 1
    else 0
  | [] => 0

/-- The number at the start of a text and the number of characters it takes. -/
def numeral (t : Text) : Except String (Value × Nat) :=
  let whole := (digits t).length
  if whole = 0 then .error "expected a literal"
  else
    let withFraction := whole + fractionLength (t.drop whole)
    let length := withFraction + exponentLength (t.drop withFraction)
    if length = whole ∧ (t.drop whole).head? = some 'n' then
      .ok (.bigint (Number.ofDigits (t.take whole)), whole + 1)
    else match Number.read? (t.take length) with
      | some x => .ok (.number x, length)
      | none => .error "invalid number"

/-- The number under the cursor, which does not run into a word. -/
def number (c : Cursor) : Except ParseError (Value × Cursor) :=
  match numeral c.rest with
  | .error detail => .error (noMatch c detail)
  | .ok (v, n) =>
    let d := c.skip n
    if startsWord d.rest then .error (noMatch c "number runs into a word") else .ok (v, d)

/-- The literal under the cursor. -/
def literal (c : Cursor) : Except ParseError (Value × Cursor) :=
  match firstWord? c literalWords with
  | some r => .ok r
  | none =>
    if c.rest.head?.any isQuote then
      (quotedString c).map fun (s, d) => (.string (String.ofList s), d)
    else number c

end Gapscript.Lexical
