import Gapscript.Statement.Basic
import Gapscript.Expr.Parser

/-!
# Reading statements

The forms are tried in a fixed order, and the first that matches is the statement. Reading needs the
names in force but changes nothing, so a form that does not match leaves no trace.
-/

namespace Gapscript

open Lexical

/-- Where statements are read: the names in force, and whether the end of the text may stand for
the end of the last statement. -/
structure StatementContext where
  names : Names
  endCloses : Bool

namespace StatementContext

/-- The end of a statement; tells whether it asks for a report. -/
def finish (ctx : StatementContext) (c : Cursor) : Reading (Bool × Cursor) :=
  let d := skipGap c
  if d.atEnd && ctx.endCloses then pure (false, d) else Reading.ofExcept (statementEnd d)

end StatementContext

/-! ## Declarations -/

/-- A lone equals sign. -/
def assignSign? (c : Cursor) : Option Cursor :=
  match c.rest with
  | '=' :: '=' :: _ | '=' :: '>' :: _ => none
  | '=' :: _ => some c.next
  | _ => none

/-- One keyword of a declaration with the white space after it; true for `const`. -/
def qualifier (c : Cursor) : Except ParseError (Bool × Cursor) :=
  match firstWord? c [("const", true), ("var", false)] with
  | none => .error (noMatch c "expected var or const")
  | some (isConst, d) =>
    match measureGap d with
    | (d, 0) => .error (noMatch d "expected whitespace")
    | (d, _) => .ok (isConst, d)

/-- The life time of a declaration, if it has one. -/
def lifeTime (c : Cursor) : Except ParseError (LifeTime × Cursor) :=
  if c.startsWith "<" then (LifeTime.parse c).map fun (life, d) => (life, skipGap d)
  else .ok (.forever, c)

/-- Two keywords, a name, an optional life time and an equals sign. -/
def declarationHeader (c : Cursor) : Except ParseError (Header × Cursor) := do
  let (nameConst, d) ← qualifier c
  let (valueConst, d) ← qualifier d
  let (name, d) ← bindingName d
  let (life, d) ← lifeTime (skipGap d)
  match assignSign? d with
  | none => .error (noMatch d "expected '='")
  | some d => .ok (⟨name, Mutability.ofKeywords nameConst valueConst, life⟩, skipGap d)

/-! ## Branches -/

section Branches

variable (names : Names) (word : String)

/-- The keyword, a guard and a body. -/
def guarded (c : Cursor) : Reading (Branch × Cursor) := do
  match keyword? word c with
  | none => Reading.fail (noMatch c ("expected " ++ word))
  | some d =>
    let start := skipGap d
    let (tree, d) ← expression names (Terminator.tokens ["\x7b"]) start
    let text := Text.trim (start.textUntil d)
    let (body, d) ← Reading.ofExcept (block (skipGap d))
    pure (⟨some ⟨tree, text, start.pos⟩, body⟩, d)

/-- What follows a branch: further guarded branches and at most one without a guard. -/
def elseBranches : (fuel : Nat) → Cursor → Reading (List Branch × Cursor)
  | 0, _ => throw .exhausted
  | fuel + 1, c => do
    match keyword? "else" (skipGap c) with
    | none => pure ([], c)
    | some d =>
      let d := skipGap d
      match ← Reading.attempt (guarded names word d) with
      | some (b, d) =>
        let (bs, d) ← elseBranches fuel d
        pure (b :: bs, d)
      | none =>
        match block d with
        | .error _ => pure ([], c)
        | .ok (body, d) => pure ([⟨none, body⟩], d)

/-- A guarded branch and what follows it. -/
def branches (c : Cursor) : Reading (List Branch × Cursor) := do
  let (b, d) ← guarded names word c
  let (bs, d) ← elseBranches names word (d.rest.length + 1) d
  pure (b :: bs, d)

end Branches

/-! ## Assignments -/

/-- The signs of assignments that compute with the old value. -/
def assignSigns : List (String × AssignMode) :=
  [("++", .step .add), ("--", .step .sub), ("+=", .compound .add), ("-=", .compound .sub),
    ("*=", .compound .mul), ("/=", .compound .div), ("%=", .compound .mod), ("^=", .compound .pow)]

/-- The sign of an assignment. -/
def assignMode (c : Cursor) : Except ParseError (AssignMode × Cursor) :=
  match assignSign? c with
  | some d => .ok (.plain, d)
  | none =>
    match assignSigns.find? fun (sign, _) => c.startsWith sign with
    | some (sign, mode) => .ok (mode, c.skip sign.length)
    | none => .error (noMatch c "expected assignment operator")

/-! ## The forms -/

section Forms

variable (ctx : StatementContext)

/-- A form of statement. -/
abbrev Form := Cursor → Reading (Statement × Cursor)

/-- A declaration with its initializer. -/
def declarationForm : Form := fun c => do
  let (header, d) ← Reading.ofExcept (declarationHeader c)
  let (value, d) ← expression ctx.names Terminator.never d
  let (debug, d) ← ctx.finish d
  pure (.declaration header value debug, d)

/-- An assignment to a name or a property. -/
def assignmentForm : Form := fun c => do
  let (name, d) ← Reading.ofExcept (bindingName c)
  let (accs, d) ← readAccessors ctx.names d
  let (mode, d) ← Reading.ofExcept (assignMode (skipGap d))
  match mode with
  | .step _ =>
    let (debug, d) ← ctx.finish d
    pure (.assignment ⟨name, accs, mode, none⟩ debug, d)
  | _ =>
    let (value, d) ← expression ctx.names Terminator.never (skipGap d)
    let (debug, d) ← ctx.finish d
    pure (.assignment ⟨name, accs, mode, some value⟩ debug, d)

/-- A block. -/
def blockForm : Form := fun c => do
  let (body, d) ← Reading.ofExcept (block c)
  pure (.block body, d)

/-- A conditional. -/
def conditionalForm : Form := fun c => do
  let (bs, d) ← branches ctx.names "if" c
  pure (.conditional bs, d)

/-- A watch, with the variables its guards read. -/
def watchForm : Form := fun c => do
  let ((bs, d), deps) ← Reading.withNotes (branches ctx.names "when" c)
  pure (.watch bs deps, d)

/-- A named function. The end of the statement may be left out after a block. -/
def functionForm : Form := fun c => do
  let (word, d) ← Reading.ofExcept (identifier Terminator.name c)
  if !isFunctionKeyword word then Reading.fail (noMatch c "expected function keyword")
  match measureGap d with
  | (d, 0) => Reading.fail (noMatch d "expected whitespace")
  | (d, _) =>
    let (name, d) ← Reading.ofExcept (bindingName d)
    let (ps, d) ← Reading.ofExcept (params d)
    let d := skipGap d
    match d.consume? "=>" with
    | none => Reading.fail (noMatch d "expected '=>'")
    | some d =>
      let (body, d) ← Reading.ofExcept (functionBody Terminator.never d)
      let fn : Function := { name := name, params := ps, body := body, line := c.pos.line }
      if fn.isBlock then
        match statementEnd (skipGap d) with
        | .ok (_, d) => pure (.function fn, d)
        | .error _ => pure (.function fn, d)
      else
        let (_, d) ← ctx.finish d
        pure (.function fn, d)

/-- A return with an optional value. -/
def returnForm : Form := fun c => do
  match keyword? "return" c with
  | none => Reading.fail (noMatch c "expected return")
  | some d =>
    let start := skipGap d
    if start.atEnd || Terminator.statement start.rest then
      let (debug, d) ← ctx.finish d
      pure (.giveBack none debug, d)
    else
      let (value, d) ← expression ctx.names Terminator.never start
      let (debug, d) ← ctx.finish d
      pure (.giveBack (some value) debug, d)

/-- A call whose value is dropped. -/
def callForm : Form := fun c => do
  let (b, d) ← readCall ctx.names false Terminator.never c
  let (accs, d) ← readAccessors ctx.names d
  let (debug, d) ← ctx.finish d
  pure (.call (.atom b accs c.pos) debug, d)

/-- A bare expression. -/
def expressionForm : Form := fun c => do
  let (value, d) ← expression ctx.names Terminator.never c
  let (debug, d) ← ctx.finish d
  pure (.expression value debug, d)

/-- Every form, in the order in which they are tried. -/
def forms : List Form :=
  [declarationForm ctx, assignmentForm ctx, blockForm, conditionalForm ctx, watchForm ctx,
    functionForm ctx, returnForm ctx, callForm ctx, expressionForm ctx]

/-- The statement under the cursor. Where no form matches, the text is unparsable. -/
def statement (c : Cursor) : Except Error (Statement × Cursor) :=
  let nothing : ParseError := ⟨.unexpectedToken, "no statement matches", some c.pos⟩
  match Reading.outcome (Reading.firstOf nothing ((forms ctx).map fun form => form c)) with
  | .ok r => .ok r
  | .error e => .error e.settled

end Forms

/-! ## Hoisted declarations -/

/-- A hoisted declaration that starts under the cursor. -/
def hoistAt? (c : Cursor) : Option Hoist :=
  match declarationHeader c with
  | .ok (header, d) =>
    if header.life.isHoisted then some { header := header, line := c.pos.line, initializer := d }
    else none
  | .error _ => none

/-- Passes over a body and collects the hoisted declarations among its statements, after passing
over `passed` characters. A statement starts at the beginning, after the end of a statement and
after a closing brace outside of brackets. -/
def hoistsFrom (depth : Nat) (atStart : Bool) : (passed : Nat) → Position → Text → List Hoist
  | _, _, [] => []
  | n + 1, pos, x :: xs => hoistsFrom depth atStart n (pos.after x) xs
  | 0, pos, x :: xs =>
    let space := gap (x :: xs)
    if atStart && 0 < space then hoistsFrom depth true (space - 1) (pos.after x) xs
    else
      (if atStart then (hoistAt? ⟨x :: xs, pos⟩).toList else []) ++
        match hiddenOrComment? (x :: xs) with
        | some n => hoistsFrom depth false (n - 1) (pos.after x) xs
        | none =>
          if opensBracket x then hoistsFrom (depth + 1) false 0 (pos.after x) xs
          else if closesBracket x then
            hoistsFrom (depth - 1) (depth ≤ 1 && x == '\x7d') 0 (pos.after x) xs
          else
            hoistsFrom depth (depth == 0 && Terminator.statement (x :: xs)) 0 (pos.after x) xs

/-- The hoisted declarations among the statements of a body. -/
def hoists (body : Cursor) : List Hoist := hoistsFrom 0 true 0 body.pos body.rest

end Gapscript
