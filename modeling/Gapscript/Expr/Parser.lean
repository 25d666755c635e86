import Gapscript.Expr.Reading
import Gapscript.Expr.Literal
import Gapscript.Lexical.Bracket

/-!
# Reading expressions

Every production that contains expressions is given a reader `self` for them and uses it only on
text that is shorter than its own. `expressionAt n` ties the knot for texts of fewer than `n`
characters, so `expression` always gives it enough.

An atom is the first that matches of a call, a variable, a literal, an object, an array, a function
and, when nothing else does, the text up to the next terminator taken as a string.
-/

namespace Gapscript

open Lexical

/-! ## Operators -/

/-- The binary operator under the cursor. One that is followed by `=` is an assignment. -/
def binaryOperator (c : Cursor) : Except ParseError (BinaryOp × Cursor) :=
  match BinaryOp.all.find? fun op => c.startsWith op.token with
  | none => .error (noMatch c "expected binary operator")
  | some op =>
    let d := c.skip op.token.length
    if d.startsWith "=" then .error (noMatch c "assignment operator") else .ok (op, d)

/-- The prefix operator written as a character. -/
def unaryOfChar? (c : Char) : Option UnaryOp :=
  if c == '-' then some .negate else if c == ';' then some .not else none

/-- The prefix operator under the cursor. -/
def unaryOperator (c : Cursor) : Except ParseError (UnaryOp × Cursor) :=
  match c.rest.head?.bind unaryOfChar? with
  | some op => .ok (op, c.next)
  | none => .error (noMatch c "expected unary operator")

/-- The runs of prefix operators at the start of a text, the latest first, and the number of
characters they take with the white space after them. -/
def runsFrom (runs : List UnaryRun) : (gapLeft : Nat) → Text → List UnaryRun × Nat
  | _, [] => (runs, 0)
  | n + 1, _ :: cs =>
    let (runs, k) := runsFrom runs n cs
    (runs, k + 1)
  | 0, c :: cs =>
    match unaryOfChar? c with
    | none => (runs, 0)
    | some op =>
      let width := gap cs
      let (runs, k) := runsFrom (UnaryRun.extend op width runs) width cs
      (runs, k + 1)

/-- The runs of prefix operators under the cursor. -/
def unaryRuns (c : Cursor) : List UnaryRun × Cursor :=
  let (runs, n) := runsFrom [] 0 c.rest
  (runs.reverse, c.skip n)

/-! ## Functions -/

/-- Parameter names separated by commas, ended by the arrow or the first name without a comma. -/
def paramsFrom : (fuel : Nat) → Cursor → Except ParseError (List String × Cursor)
  | 0, c => .ok ([], c)
  | fuel + 1, c =>
    let c := skipGap c
    if c.startsWith "=>" then .ok ([], c)
    else match bindingName c with
      | .error e => .error e
      | .ok (name, d) =>
        let d := skipGap d
        match d.consume? "," with
        | none => .ok ([name], d)
        | some d => (paramsFrom fuel d).map fun (names, d) => (name :: names, d)

/-- The parameter names under the cursor. -/
def params (c : Cursor) : Except ParseError (List String × Cursor) :=
  paramsFrom (c.rest.length + 1) c

/-- The body of a function: a block, or the source of an expression. -/
def functionBody (term : Terminator) (c : Cursor) : Except ParseError (Body × Cursor) :=
  let c := skipGap c
  if c.startsWith "\x7b" then
    (block c).map fun (body, d) => (.script body.rest body.pos true, d)
  else
    let (source, d) := expressionSource term c
    match Text.trimLine source with
    | [] => .error (noMatch c "empty function body")
    | text => .ok (.script text c.pos false, d)

/-- A function literal: parameters, an arrow and a body. -/
def functionLiteral (term : Terminator) (c : Cursor) : Except ParseError (Function × Cursor) := do
  let (names, d) ← params c
  let d := skipGap d
  match d.consume? "=>" with
  | none => .error (noMatch d "expected '=>'")
  | some d =>
    let (body, d) ← functionBody term d
    .ok ({ params := names, body := body, line := c.pos.line }, d)

/-- The text up to the next terminator as a string. -/
def implicitString (term : Terminator) (c : Cursor) : Except ParseError (Base × Cursor) :=
  if c.startsWith "\x7d" then .error (noMatch c "unexpected '\x7d'")
  else match chunk (Terminator.statement.or term) c with
    | .error e => .error e
    | .ok (t, d) =>
      match Text.trimLine t with
      | [] => .error (noMatch c "empty implicit string")
      | s => .ok (.literal (.string (String.ofList s)) true, d)

/-! ## Productions that contain expressions -/

section Productions

variable (names : Names) (self : ExprReader)

/-- The arguments of a call, as many as the function takes. -/
def arguments (tooFew : Nat → Error) (term : Terminator) :
    (read left : Nat) → Cursor → Reading (List Expr × Cursor)
  | _, 0, c => pure ([], c)
  | read, left + 1, c => do
    let c := skipGap c
    if c.atEnd || Terminator.statement c.rest || term c.rest then throw (tooFew read)
    let argTerm := if left = 0 then term else term.or (Terminator.tokens [","])
    match ← Reading.attempt (self argTerm c) with
    | none => throw (tooFew read)
    | some (arg, d) =>
      if left = 0 then pure ([arg], d)
      else match (skipGap d).consume? "," with
        | none => throw (tooFew (read + 1))
        | some d =>
          let (args, d) ← arguments tooFew term (read + 1) left d
          pure (arg :: args, d)

/-- A call: the name of something callable and its arguments. -/
def call (strict : Bool) (term : Terminator) (c : Cursor) : Reading (Base × Cursor) := do
  let (name, d) ← Reading.ofExcept (bindingName c)
  match names.callee? strict name with
  | none => Reading.fail (noMatch c ("not a function: " ++ name))
  | some fn =>
    let arity := fn.code.arity
    let tooFew (got : Nat) : Error := .runtime ⟨.argumentCount name arity got, some c.pos⟩
    let (args, d) ← arguments self tooFew term 0 arity d
    pure (.call name fn args c.pos, d)

/-- A variable, read at once. -/
def variableName (c : Cursor) : Reading (Base × Cursor) := do
  let (name, d) ← Reading.ofExcept (bindingName c)
  match names.value? name with
  | none => Reading.fail (noMatch c ("not a variable: " ++ name))
  | some v =>
    Reading.note name
    pure (.name name v, d)

/-- The key of a property: a quoted string or a bare word. -/
def objectKey (c : Cursor) : Except ParseError (String × Cursor) :=
  if c.rest.head?.any isQuote then
    (quotedString c).map fun (s, d) => (String.ofList s, d)
  else identifier (Terminator.tokens [":", ",", "\x7d"]) c

/-- The properties of an object up to its closing brace. -/
def objectEntries : (fuel : Nat) → Cursor → Reading (List String × List Expr × Cursor)
  | 0, _ => throw .exhausted
  | fuel + 1, c => do
    let c := skipGap c
    match c.consume? "\x7d" with
    | some d => pure ([], [], d)
    | none =>
      let (key, d) ← Reading.ofExcept (objectKey c)
      let d := skipGap d
      match d.consume? ":" with
      | none => Reading.fail (unexpected d "expected ':' in object initializer")
      | some d =>
        let (value, d) ← self (Terminator.tokens [",", "\x7d"]) (skipGap d)
        let d := skipGap d
        match d.consume? "," with
        | some d =>
          let (keys, values, d) ← objectEntries fuel d
          pure (key :: keys, value :: values, d)
        | none =>
          match d.consume? "\x7d" with
          | some d => pure ([key], [value], d)
          | none => Reading.fail (unexpected d "expected ',' or '\x7d' in object initializer")

/-- An object initializer. -/
def object (fuel : Nat) (c : Cursor) : Reading (Base × Cursor) := do
  match c.consume? "\x7b" with
  | none => Reading.fail (noMatch c "expected '\x7b'")
  | some d =>
    let (keys, values, d) ← objectEntries self fuel d
    pure (.object keys values, d)

/-- The elements of an array up to its closing bracket. -/
def arrayElements : (fuel : Nat) → Cursor → Reading (List Expr × Cursor)
  | 0, _ => throw .exhausted
  | fuel + 1, c => do
    let c := skipGap c
    match c.consume? "]" with
    | some d => pure ([], d)
    | none =>
      let (e, d) ← self (Terminator.tokens [",", "]"]) c
      let d := skipGap d
      match d.consume? "," with
      | some d =>
        let (es, d) ← arrayElements fuel d
        pure (e :: es, d)
      | none =>
        match d.consume? "]" with
        | some d => pure ([e], d)
        | none => Reading.fail (unexpected d "expected ',' or ']' in array initializer")

/-- An array initializer. -/
def array (fuel : Nat) (c : Cursor) : Reading (Base × Cursor) := do
  match c.consume? "[" with
  | none => Reading.fail (noMatch c "expected '['")
  | some d =>
    let (es, d) ← arrayElements self fuel d
    pure (.array es, d)

/-- The accessors written directly after a base; what does not read as one is left alone. -/
def accessors : (fuel : Nat) → Cursor → Reading (List Accessor × Cursor)
  | 0, _ => throw .exhausted
  | fuel + 1, c => do
    match c.rest with
    | '.' :: _ =>
      match identifier Terminator.name c.next with
      | .error _ => pure ([], c)
      | .ok (name, d) =>
        let (more, d) ← accessors fuel d
        pure (.dot name :: more, d)
    | '[' :: _ =>
      match ← Reading.attempt (self (Terminator.tokens ["]"]) (skipGap c.next)) with
      | none => pure ([], c)
      | some (e, d) =>
        match (skipGap d).consume? "]" with
        | none => pure ([], c)
        | some d =>
          let (more, d) ← accessors fuel d
          pure (.index e :: more, d)
    | _ => pure ([], c)

/-- A literal. -/
def literalBase (c : Cursor) : Reading (Base × Cursor) := fun noted =>
  Reading.ofExcept ((literal c).map fun (v, d) => (.literal v false, d)) noted

/-- A function literal as a base. -/
def functionBase (term : Terminator) (c : Cursor) : Reading (Base × Cursor) := fun noted =>
  Reading.ofExcept ((functionLiteral term c).map fun (f, d) => (.function f, d)) noted

/-- A text nobody quoted as a base. -/
def implicitBase (term : Terminator) (c : Cursor) : Reading (Base × Cursor) := fun noted =>
  Reading.ofExcept (implicitString term c) noted

/-- The base of an atom: the first alternative that matches. -/
def base (fuel : Nat) (term : Terminator) (c : Cursor) : Reading (Base × Cursor) :=
  Reading.firstOf (noMatch c "expected an expression")
    [call names self true term c,
      variableName names c,
      literalBase c,
      object self fuel c,
      array self fuel c,
      functionBase term c,
      implicitBase term c]

/-- A base with its accessors. -/
def atom (fuel : Nat) (term : Terminator) (c : Cursor) : Reading (Expr × Cursor) := do
  let (b, d) ← base names self fuel term c
  let (accs, d) ← accessors self fuel d
  pure (.atom b accs c.pos, d)

/-- An atom with the prefix operators in front of it. If nothing follows the operators, they are
read as the start of an atom themselves. -/
def operand (fuel : Nat) (term : Terminator) (c : Cursor) :
    Reading (List UnaryRun × Expr × Cursor) := do
  match unaryRuns c with
  | ([], _) =>
    let (e, d) ← atom names self fuel term c
    pure ([], e, d)
  | (runs, d) =>
    match ← Reading.attempt (atom names self fuel term d) with
    | some (e, d) => pure (UnaryRun.collapse runs, e, d)
    | none =>
      let (e, d) ← atom names self fuel term c
      pure ([], e, d)

/-- Binary operators and their right operands, as long as they match. -/
def operations (fuel : Nat) (term : Terminator) :
    (left : Nat) → Fold → Cursor → Reading (Fold × Cursor)
  | 0, _, _ => throw .exhausted
  | left + 1, f, c => do
    let (d, before) := measureGap c
    if d.atEnd || term d.rest then pure (f, c)
    else match binaryOperator d with
      | .error _ => pure (f, c)
      | .ok (op, d) =>
        let (d, after) := measureGap d
        match ← Reading.attempt (operand names self fuel term d) with
        | none => pure (f, c)
        | some (runs, e, d) =>
          operations fuel term left ((f.pushBinary op (before + after)).pushOperand runs e) d

/-- An operand followed by any number of operators with their operands. -/
def expressionWith (fuel : Nat) : ExprReader := fun term c => do
  let (runs, e, d) ← operand names self fuel term c
  let (f, d) ← operations names self fuel term fuel (Fold.pushOperand {} runs e) d
  pure (f.finish.headD e, d)

end Productions

/-! ## Expressions -/

/-- Reads expressions of fewer than `n` characters. -/
def expressionAt (names : Names) : (n : Nat) → ExprReader
  | 0, _, _ => throw .exhausted
  | n + 1, term, c => expressionWith names (expressionAt names n) n term c

/-- Reads an expression. -/
def expression (names : Names) : ExprReader := fun term c =>
  expressionAt names (c.rest.length + 1) term c

/-- Reads an expression that spans all of the text. -/
def fullExpression (names : Names) (c : Cursor) : Reading Expr := do
  let (e, d) ← expression names Terminator.never (skipGap c)
  let d := skipGap d
  if d.atEnd then pure e else Reading.fail (unexpected d "unexpected input after expression")

/-! ## Entry points for single productions -/

/-- Reads an atom. -/
def readAtom (names : Names) (term : Terminator) (c : Cursor) : Reading (Expr × Cursor) :=
  atom names (expressionAt names c.rest.length) c.rest.length term c

/-- Reads a call. -/
def readCall (names : Names) (strict : Bool) (term : Terminator) (c : Cursor) :
    Reading (Base × Cursor) :=
  call names (expressionAt names c.rest.length) strict term c

/-- Reads an object initializer. -/
def readObject (names : Names) (c : Cursor) : Reading (Base × Cursor) :=
  object (expressionAt names c.rest.length) c.rest.length c

/-- Reads an array initializer. -/
def readArray (names : Names) (c : Cursor) : Reading (Base × Cursor) :=
  array (expressionAt names c.rest.length) c.rest.length c

/-- Reads accessors. -/
def readAccessors (names : Names) (c : Cursor) : Reading (List Accessor × Cursor) :=
  accessors (expressionAt names c.rest.length) (c.rest.length + 1) c

end Gapscript
