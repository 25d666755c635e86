import Gapscript.Statement.Parser

/-!
# The same text further down

A `Shift` says how many lines further down and how many bytes further on a text stands; columns stay
as they are. Everything that is read carries such a shift: places and cursors, the bodies of functions
and so the values that hold them, trees, statements and failures. Readers look at a place only to keep
it, and the text between two cursors depends on the distance of their places alone, so what is read
off a shifted cursor is what is read off the cursor itself, shifted.
-/

namespace Gapscript

open Lexical

/-- How many lines further down and how many bytes further on a text stands. -/
structure Shift where
  lines : Int
  bytes : Int

namespace Shift

variable (d : Shift)

/-! ## What carries a shift -/

/-- A place, shifted. -/
def position (p : Position) : Position :=
  { p with line := p.line + d.lines, offset := p.offset + d.bytes }

/-- A cursor over the same text, shifted. -/
def cursor (c : Cursor) : Cursor := ⟨c.rest, d.position c.pos⟩

/-- A function, shifted where it was written; one of the host was not written anywhere. -/
def function (f : Function) : Function :=
  match f.body with
  | .script text pos block =>
    { f with body := .script text (d.position pos) block, line := f.line + d.lines }
  | .native .. => f

/-- A function with its identity, shifted. -/
def ref (f : FunctionRef) : FunctionRef := ⟨f.id, d.function f.code⟩

/-- A value, shifted: only functions know where they were written. -/
def value : Value → Value
  | .function f => .function (d.ref f)
  | v => v

mutual

/-- A tree, shifted. -/
def expr : Expr → Expr
  | .atom b accs pos => .atom (base b) (accessors accs) (d.position pos)
  | .unary op e => .unary op (expr e)
  | .binary op l r => .binary op (expr l) (expr r)

/-- A base, shifted. -/
def base : Base → Base
  | .literal v implicit => .literal (d.value v) implicit
  | .name name v => .name name (d.value v)
  | .call name fn args pos => .call name (d.ref fn) (exprs args) (d.position pos)
  | .object keys values => .object keys (exprs values)
  | .array elements => .array (exprs elements)
  | .function fn => .function (d.function fn)

/-- Trees, shifted. -/
def exprs : List Expr → List Expr
  | [] => []
  | e :: es => expr e :: exprs es

/-- An accessor, shifted. -/
def accessor : Accessor → Accessor
  | .dot name => .dot name
  | .index e => .index (expr e)

/-- Accessors, shifted. -/
def accessors : List Accessor → List Accessor
  | [] => []
  | acc :: accs => accessor acc :: accessors accs

end

/-- A guard, shifted. -/
def guard (g : Guard) : Guard := ⟨d.expr g.tree, g.text, d.position g.pos⟩

/-- A branch, shifted. -/
def branch (b : Branch) : Branch := ⟨b.guard.map d.guard, d.cursor b.body⟩

/-- An assignment, shifted. -/
def assignment (a : Assignment) : Assignment :=
  ⟨a.name, d.accessors a.accessors, a.mode, a.value.map d.expr⟩

/-- A statement, shifted. -/
def statement : Statement → Statement
  | .declaration h value debug => .declaration h (d.expr value) debug
  | .assignment a debug => .assignment (d.assignment a) debug
  | .block body => .block (d.cursor body)
  | .conditional bs => .conditional (bs.map d.branch)
  | .watch bs deps => .watch (bs.map d.branch) deps
  | .function fn => .function (d.function fn)
  | .giveBack value debug => .giveBack (value.map d.expr) debug
  | .call value debug => .call (d.expr value) debug
  | .expression value debug => .expression (d.expr value) debug

/-- A hoisted declaration, shifted. -/
def hoist (h : Hoist) : Hoist :=
  { h with line := h.line + d.lines, initializer := d.cursor h.initializer }

/-- A mismatch, shifted. -/
def parseError (e : ParseError) : ParseError := { e with pos := e.pos.map d.position }

/-- A failure, shifted. -/
def error : Error → Error
  | .mismatch e => .mismatch (d.parseError e)
  | .unparsable e => .unparsable (d.parseError e)
  | .runtime e => .runtime { e with pos := e.pos.map d.position }
  | .exhausted => .exhausted

/-- Names that stand for the same, shifted. -/
def names (names : Names) : Names where
  value? name := (names.value? name).map d.value
  callee? strict name := (names.callee? strict name).map d.ref

variable {d}

theorem callee?_names (ns : Names) (strict : Bool) (name : String) :
    (d.names ns).callee? strict name = (ns.callee? strict name).map d.ref := rfl

theorem value?_names (ns : Names) (name : String) :
    (d.names ns).value? name = (ns.value? name).map d.value := rfl

section Function

variable (f : Function)

@[simp] theorem name_function : (d.function f).name = f.name := by
  unfold function; split <;> rfl

@[simp] theorem params_function : (d.function f).params = f.params := by
  unfold function; split <;> rfl

@[simp] theorem arity_function : (d.function f).arity = f.arity := by
  unfold function Function.arity
  cases hf : f.body with
  | script text pos block => rfl
  | native slot n => dsimp only; rw [hf]

@[simp] theorem describe_function : (d.function f).describe = f.describe := by
  unfold Function.describe
  rw [name_function]

end Function

/-! ## Places and cursors -/

@[simp] theorem after_position (p : Position) (x : Char) :
    (d.position p).after x = d.position (p.after x) := by
  unfold Position.after position
  split
  · dsimp only
    rw [Int.add_right_comm, Int.add_right_comm p.offset]
  · dsimp only
    rw [Int.add_right_comm p.offset]

theorem afterText_position (p : Position) (t : Text) :
    (d.position p).afterText t = d.position (p.afterText t) := by
  induction t generalizing p with
  | nil => rfl
  | cons x xs ih => rw [Position.afterText_cons, after_position, ih, Position.afterText_cons]

section Cursor

variable (c : Cursor)

@[simp] theorem rest_cursor : (d.cursor c).rest = c.rest := rfl

@[simp] theorem pos_cursor : (d.cursor c).pos = d.position c.pos := rfl

@[simp] theorem startsWith_cursor (s : String) : (d.cursor c).startsWith s = c.startsWith s := rfl

@[simp] theorem skip_cursor (n : Nat) : (d.cursor c).skip n = d.cursor (c.skip n) := by
  rw [Cursor.skip_eq, Cursor.skip_eq, pos_cursor, afterText_position]
  rfl

@[simp] theorem next_cursor : (d.cursor c).next = d.cursor c.next := skip_cursor c 1

@[simp] theorem consume?_cursor (s : String) : (d.cursor c).consume? s = (c.consume? s).map d.cursor := by
  unfold Cursor.consume?
  rw [startsWith_cursor, skip_cursor]
  split <;> rfl

@[simp] theorem textUntil_cursor (e : Cursor) : (d.cursor c).textUntil (d.cursor e) = c.textUntil e := by
  have distance : e.pos.offset + d.bytes - (c.pos.offset + d.bytes) = e.pos.offset - c.pos.offset := by omega
  unfold Cursor.textUntil
  dsimp only [pos_cursor, rest_cursor, position]
  rw [distance]

@[simp] theorem skipGap_cursor : skipGap (d.cursor c) = d.cursor (skipGap c) := skip_cursor c _

@[simp] theorem noMatch_cursor (detail : String) :
    noMatch (d.cursor c) detail = d.parseError (noMatch c detail) := rfl

end Cursor

/-! ## Words -/

variable (d) in
/-- The outcome of a reader, shifted. -/
def parsed {α β : Type} (f : α → β) : Except ParseError α → Except ParseError β
  | .ok a => .ok (f a)
  | .error e => .error (d.parseError e)

theorem bind_parsed {α α' β β' : Type} {f : α → α'} {g : β → β'} {h : α → Except ParseError β}
    {h' : α' → Except ParseError β'} (x : Except ParseError α) (next : ∀ a, h' (f a) = d.parsed g (h a)) :
    d.parsed f x >>= h' = d.parsed g (x >>= h) := by
  cases x with
  | ok a => exact next a
  | error e => rfl

theorem map_parsed {α α' β β' : Type} {f : α → α'} {g : β → β'} {h : α → β} {h' : α' → β'}
    (x : Except ParseError α) (next : ∀ a, h' (f a) = g (h a)) :
    (d.parsed f x).map h' = d.parsed g (x.map h) := by
  cases x with
  | ok a => exact congrArg Except.ok (next a)
  | error e => rfl

section Words

variable (c : Cursor)

theorem keyword?_cursor (word : String) : keyword? word (d.cursor c) = (keyword? word c).map d.cursor := by
  unfold keyword?
  rw [consume?_cursor]
  cases c.consume? word with
  | none => rfl
  | some e =>
    dsimp only [Option.map_some, rest_cursor]
    rw [apply_ite (Option.map d.cursor)]
    rfl

theorem firstWord?_cursor {α : Type} (words : List (String × α)) :
    firstWord? (d.cursor c) words = (firstWord? c words).map (Prod.map id d.cursor) := by
  induction words with
  | nil => rfl
  | cons w words ih =>
    rw [firstWord?, firstWord?, keyword?_cursor]
    cases keyword? w.1 c with
    | none => exact ih
    | some e => rfl

theorem identifier_cursor (term : Terminator) :
    identifier term (d.cursor c) = d.parsed (Prod.map id d.cursor) (identifier term c) := by
  unfold identifier
  rw [rest_cursor]
  split
  · rfl
  · rw [skip_cursor]; rfl

theorem bindingName_cursor :
    bindingName (d.cursor c) = d.parsed (Prod.map id d.cursor) (bindingName c) := by
  unfold bindingName
  rw [rest_cursor, identifier_cursor]
  split
  · split <;> rfl
  · rfl

theorem chunk_cursor (term : Terminator) :
    chunk term (d.cursor c) = d.parsed (Prod.map id d.cursor) (chunk term c) := by
  unfold chunk
  rw [rest_cursor]
  split
  · rfl
  · rw [skip_cursor]; rfl

theorem statementEnd_cursor :
    statementEnd (d.cursor c) = d.parsed (Prod.map id d.cursor) (statementEnd c) := by
  unfold statementEnd
  rw [rest_cursor]
  split
  · rw [next_cursor]; rfl
  · split
    · rfl
    · rw [skip_cursor]; rfl

theorem quotedString_cursor :
    quotedString (d.cursor c) = d.parsed (Prod.map id d.cursor) (quotedString c) := by
  unfold quotedString
  rw [rest_cursor]
  split
  · rw [skip_cursor]; rfl
  · rfl

theorem block_cursor : block (d.cursor c) = d.parsed (Prod.map d.cursor d.cursor) (block c) := by
  unfold block
  rw [consume?_cursor]
  cases c.consume? "\x7b" with
  | none => rfl
  | some start =>
    dsimp only [Option.map_some, rest_cursor]
    split
    · rw [skip_cursor]; rfl
    · rfl

theorem expressionSource_cursor (term : Terminator) :
    expressionSource term (d.cursor c) = Prod.map id d.cursor (expressionSource term c) := by
  unfold expressionSource
  dsimp only
  rw [skip_cursor]
  rfl

/-! ## Literals -/

theorem value_of_plain {v : Value} (h : v.isReference = false) : d.value v = v := by
  cases v with
  | function f => cases h
  | _ => rfl

theorem number_cursor : number (d.cursor c) = d.parsed (Prod.map id d.cursor) (number c) := by
  unfold number
  rw [rest_cursor]
  split
  · rfl
  · dsimp only
    rw [skip_cursor, rest_cursor]
    split <;> rfl

theorem literal_cursor : literal (d.cursor c) = d.parsed (Prod.map id d.cursor) (literal c) := by
  unfold literal
  rw [firstWord?_cursor, rest_cursor, quotedString_cursor, number_cursor]
  cases firstWord? c literalWords with
  | some r => rfl
  | none =>
    dsimp only [Option.map_none]
    split
    · exact map_parsed _ fun _ => rfl
    · rfl

theorem objectKey_cursor : objectKey (d.cursor c) = d.parsed (Prod.map id d.cursor) (objectKey c) := by
  unfold objectKey
  rw [rest_cursor, quotedString_cursor, identifier_cursor]
  split
  · exact map_parsed _ fun _ => rfl
  · rfl

/-! ## Operators and functions -/

theorem binaryOperator_cursor :
    binaryOperator (d.cursor c) = d.parsed (Prod.map id d.cursor) (binaryOperator c) := by
  unfold binaryOperator
  dsimp only [startsWith_cursor]
  split
  · rfl
  · rw [skip_cursor, startsWith_cursor]
    split <;> rfl

theorem unaryRuns_cursor : unaryRuns (d.cursor c) = Prod.map id d.cursor (unaryRuns c) := by
  unfold unaryRuns
  dsimp only
  rw [skip_cursor]
  rfl

theorem paramsFrom_cursor (fuel : Nat) :
    paramsFrom fuel (d.cursor c) = d.parsed (Prod.map id d.cursor) (paramsFrom fuel c) := by
  induction fuel generalizing c with
  | zero => rfl
  | succ fuel ih =>
    rw [paramsFrom, paramsFrom]
    dsimp only
    rw [skipGap_cursor, startsWith_cursor, bindingName_cursor]
    split
    · rfl
    · cases bindingName (skipGap c) with
      | error e => rfl
      | ok r =>
        obtain ⟨name, e⟩ := r
        dsimp only [parsed, Prod.map_apply]
        rw [skipGap_cursor, consume?_cursor]
        cases (skipGap e).consume? "," with
        | none => rfl
        | some e =>
          dsimp only [Option.map_some]
          rw [ih]
          exact map_parsed _ fun _ => rfl

theorem params_cursor : params (d.cursor c) = d.parsed (Prod.map id d.cursor) (params c) :=
  paramsFrom_cursor c _

variable (d) in
/-- The body of a function, shifted. -/
def body : Body → Body
  | .script text pos block => .script text (d.position pos) block
  | .native slot arity => .native slot arity

theorem functionBody_cursor (term : Terminator) :
    functionBody term (d.cursor c) = d.parsed (Prod.map d.body d.cursor) (functionBody term c) := by
  unfold functionBody
  dsimp only
  rw [skipGap_cursor, startsWith_cursor, block_cursor, expressionSource_cursor]
  split
  · exact map_parsed _ fun _ => rfl
  · dsimp only [Prod.map_fst, id]
    split <;> rfl

end Words

/-! ## A text that stays where it is -/

/-- No lines further down and no bytes further on. -/
def still : Shift := ⟨0, 0⟩

theorem line_still (line : Int) : line + still.lines = line := Int.add_zero line

@[simp] theorem position_still (p : Position) : still.position p = p := by
  simp [position, still]

@[simp] theorem cursor_still (c : Cursor) : still.cursor c = c := by
  simp [cursor]

@[simp] theorem function_still (f : Function) : still.function f = f := by
  obtain ⟨name, params, body, line⟩ := f
  cases body with
  | script text pos block =>
    have line : line + still.lines = line := Int.add_zero line
    simp only [function, position_still, line]
  | native slot arity => rfl

@[simp] theorem ref_still (f : FunctionRef) : still.ref f = f := by
  simp [ref]

@[simp] theorem value_still (v : Value) : still.value v = v := by
  cases v with
  | function f => simp [value]
  | _ => rfl

mutual

theorem expr_still (e : Expr) : still.expr e = e := by
  cases e with
  | atom b accs pos => rw [expr, base_still, accessors_still, position_still]
  | unary op e => rw [expr, expr_still]
  | binary op l r => rw [expr, expr_still, expr_still]

theorem base_still (b : Base) : still.base b = b := by
  cases b with
  | literal v implicit | name name v => rw [base, value_still]
  | call name fn args pos => rw [base, ref_still, exprs_still, position_still]
  | object keys values => rw [base, exprs_still]
  | array elements => rw [base, exprs_still]
  | function fn => rw [base, function_still]

theorem exprs_still (es : List Expr) : still.exprs es = es := by
  cases es with
  | nil => rfl
  | cons e es => rw [exprs, expr_still, exprs_still]

theorem accessors_still (accs : List Accessor) : still.accessors accs = accs := by
  cases accs with
  | nil => rfl
  | cons acc accs =>
    cases acc with
    | dot name => rw [accessors, accessor, accessors_still]
    | index e => rw [accessors, accessor, expr_still, accessors_still]

end

@[simp] theorem guard_still (g : Guard) : still.guard g = g := by
  simp [guard, expr_still]

theorem map_still {α : Type} {f : α → α} (h : ∀ a, f a = a) (o : Option α) : o.map f = o := by
  cases o with
  | none => rfl
  | some a => exact congrArg some (h a)

theorem names_still (ns : Names) : still.names ns = ns := by
  obtain ⟨value?, callee?⟩ := ns
  unfold names
  congr 1
  · funext name
    exact map_still value_still _
  · funext strict name
    exact map_still ref_still _

@[simp] theorem branch_still (b : Branch) : still.branch b = b := by
  simp [branch, map_still guard_still]

@[simp] theorem error_still (e : Error) : still.error e = e := by
  cases e with
  | mismatch e | unparsable e | runtime e => simp [error, parseError, map_still position_still]
  | exhausted => rfl

end Shift

end Gapscript
