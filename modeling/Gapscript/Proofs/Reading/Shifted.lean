import Gapscript.Proofs.Reading.Shift
import Gapscript.Proofs.Reading.Statement

/-!
# Reading the same text further down

`d.Shifted f p q` is the judgment about two readings: after any notes, the second one notes what the
first does and ends alike, its result mapped by `f` and its failure shifted. The rules follow the
combinators that readers are built from, and one pass over the productions and the forms of statements
shows that a reader which is given a shifted cursor and shifted names is the shifted reader. Nothing
is asked of the text, and budgets count characters, so they are the same on both sides.
-/

namespace Gapscript

open Lexical Reading

namespace Shift

variable {d : Shift} {α α' β β' : Type}

/-! ## The judgment -/

/-- The outcome of a reading or a run, its result mapped and its failure shifted. -/
def result {σ : Type} (d : Shift) (f : α → α') : EStateM.Result Error σ α → EStateM.Result Error σ α'
  | .ok a l => .ok (f a) l
  | .error e l => .error (d.error e) l

/-- The second reading is the first one, shifted. -/
def Shifted (d : Shift) (f : α → α') (p : Reading α) (q : Reading α') : Prop := ∀ l, q l = d.result f (p l)

section Rules

variable {f : α → α'} {g : β → β'} {p : Reading α} {q : Reading α'}

theorem shifted_pure {a : α} {a' : α'} (h : a' = f a) : d.Shifted f (pure a) (pure a') :=
  fun _ => congrArg (EStateM.Result.ok · _) h

theorem shifted_throw (e : Error) : d.Shifted f (throw e) (throw (d.error e)) := fun _ => rfl

theorem shifted_fail (e : ParseError) : d.Shifted f (fail e) (fail (d.parseError e)) := fun _ => rfl

theorem shifted_throw_bind (e : Error) (h : α → Reading β) (h' : α' → Reading β') :
    d.Shifted g (throw e >>= h) (throw (d.error e) >>= h') := fun _ => rfl

theorem shifted_note (name : String) : d.Shifted id (note name) (note name) := fun _ => rfl

theorem shifted_ofExcept {r : Except ParseError α} {r' : Except ParseError α'} (h : r' = d.parsed f r) :
    d.Shifted f (ofExcept r) (ofExcept r') := by
  rw [h]
  cases r with
  | ok a => exact shifted_pure rfl
  | error e => exact shifted_fail e

theorem Shifted.bind {h : α → Reading β} {h' : α' → Reading β'} (hp : d.Shifted f p q)
    (next : ∀ a, d.Shifted g (h a) (h' (f a))) : d.Shifted g (p >>= h) (q >>= h') := by
  intro l
  have first := hp l
  cases hr : p l with
  | ok a l' =>
    rw [hr] at first
    rw [bind_of_ok hr, bind_of_ok first]
    exact next a l'
  | error e l' =>
    rw [hr] at first
    rw [bind_of_error hr, bind_of_error first]
    rfl

theorem isMismatch_error (e : Error) : (d.error e).isMismatch = e.isMismatch := by
  cases e <;> rfl

theorem Shifted.attempt (hp : d.Shifted f p q) : d.Shifted (Option.map f) p.attempt q.attempt := by
  intro l
  have first := hp l
  unfold Reading.attempt
  cases hr : p l with
  | ok a l' =>
    rw [hr] at first
    rw [first]
    rfl
  | error e l' =>
    rw [hr] at first
    rw [first]
    dsimp only [result]
    rw [isMismatch_error]
    split <;> rfl

theorem shifted_firstOf_cons {otherwise : ParseError} {ps : List (Reading α)} {qs : List (Reading α')}
    (hp : d.Shifted f p q) (rest : d.Shifted f (firstOf otherwise ps) (firstOf (d.parseError otherwise) qs)) :
    d.Shifted f (firstOf otherwise (p :: ps)) (firstOf (d.parseError otherwise) (q :: qs)) := by
  refine hp.attempt.bind fun r => ?_
  cases r with
  | some a => exact shifted_pure rfl
  | none => exact rest

theorem Shifted.withNotes (hp : d.Shifted f p q) : d.Shifted (Prod.map f id) p.withNotes q.withNotes := by
  intro l
  have own := hp []
  unfold Reading.withNotes
  rw [own]
  cases p [] <;> rfl

theorem shifted_ite {c : Prop} [Decidable c] {r : Reading α} {r' : Reading α'} (hp : d.Shifted f p q)
    (hr : d.Shifted f r r') : d.Shifted f (if c then p else r) (if c then q else r') := by
  split
  · exact hp
  · exact hr

theorem Shifted.outcome (hp : d.Shifted f p q) :
    Reading.outcome q = match Reading.outcome p with
      | .ok a => .ok (f a)
      | .error e => .error (d.error e) := by
  unfold Reading.outcome
  rw [hp []]
  cases p [] <;> rfl

end Rules

/-! ## Functions and unquoted text -/

theorem functionLiteral_cursor (term : Terminator) (c : Cursor) :
    functionLiteral term (d.cursor c) = d.parsed (Prod.map d.function d.cursor) (functionLiteral term c) := by
  unfold functionLiteral
  rw [params_cursor]
  refine bind_parsed (params c) ?_
  rintro ⟨names, e⟩
  dsimp only [Prod.map_apply, id]
  rw [skipGap_cursor, consume?_cursor]
  cases (skipGap e).consume? "=>" with
  | none => rfl
  | some e =>
    dsimp only [Option.map_some]
    rw [functionBody_cursor]
    cases hb : functionBody term e with
    | error err => rfl
    | ok r =>
      obtain ⟨b, e⟩ := r
      obtain ⟨text, pos, block, rfl, -⟩ := includes_functionBody hb
      rfl

theorem implicitString_cursor (term : Terminator) (c : Cursor) :
    implicitString term (d.cursor c) = d.parsed (Prod.map d.base d.cursor) (implicitString term c) := by
  unfold implicitString
  rw [startsWith_cursor, chunk_cursor]
  split
  · rfl
  · cases chunk (Terminator.statement.or term) c with
    | error e => rfl
    | ok r =>
      dsimp only [parsed, Prod.map_fst, Prod.map_snd, id]
      split
      · rfl
      · rfl

/-! ## Productions that contain expressions -/

/-- The second reader reads off shifted cursors what the first one reads, shifted. -/
def Reads (d : Shift) (self self' : ExprReader) : Prop :=
  ∀ term c, d.Shifted (Prod.map d.expr d.cursor) (self term c) (self' term (d.cursor c))

section Productions

variable {self self' : ExprReader} {names : Names}

theorem shifted_arguments (hself : d.Reads self self') {tooFew tooFew' : Nat → Error}
    (few : ∀ n, tooFew' n = d.error (tooFew n)) (term : Terminator) (read left : Nat) (c : Cursor) :
    d.Shifted (Prod.map d.exprs d.cursor) (arguments self tooFew term read left c)
      (arguments self' tooFew' term read left (d.cursor c)) := by
  induction left generalizing read c with
  | zero => exact shifted_pure rfl
  | succ left ih =>
    rw [arguments, arguments]
    dsimp only
    rw [skipGap_cursor, few]
    refine shifted_ite (shifted_throw_bind _ _ _) ((hself _ _).attempt.bind fun r => ?_)
    cases r with
    | none => exact shifted_throw _
    | some r =>
      obtain ⟨arg, e⟩ := r
      refine shifted_ite (shifted_pure rfl) ?_
      rw [skipGap_cursor, consume?_cursor, few]
      cases (skipGap e).consume? "," with
      | none => exact shifted_throw _
      | some e => exact (ih _ _).bind fun _ => shifted_pure rfl

theorem shifted_call (hself : d.Reads self self') (strict : Bool) (term : Terminator) (c : Cursor) :
    d.Shifted (Prod.map d.base d.cursor) (call names self strict term c)
      (call (d.names names) self' strict term (d.cursor c)) := by
  refine (shifted_ofExcept (bindingName_cursor c)).bind ?_
  rintro ⟨name, e⟩
  dsimp only [Prod.map_apply, id]
  rw [callee?_names]
  cases names.callee? strict name with
  | none => exact shifted_fail _
  | some fn =>
    dsimp only [Option.map_some]
    have arity : (d.ref fn).code.arity = fn.code.arity := arity_function _
    rw [arity]
    exact (shifted_arguments hself (fun _ => rfl) term _ _ _).bind fun _ => shifted_pure rfl

theorem shifted_variableName (c : Cursor) :
    d.Shifted (Prod.map d.base d.cursor) (variableName names c)
      (variableName (d.names names) (d.cursor c)) := by
  refine (shifted_ofExcept (bindingName_cursor c)).bind ?_
  rintro ⟨name, e⟩
  dsimp only [Prod.map_apply, id]
  rw [value?_names]
  cases names.value? name with
  | none => exact shifted_fail _
  | some v => exact (shifted_note name).bind fun _ => shifted_pure rfl

theorem shifted_objectEntries (hself : d.Reads self self') (fuel : Nat) (c : Cursor) :
    d.Shifted (Prod.map id (Prod.map d.exprs d.cursor)) (objectEntries self fuel c)
      (objectEntries self' fuel (d.cursor c)) := by
  induction fuel generalizing c with
  | zero => exact shifted_throw _
  | succ fuel ih =>
    rw [objectEntries, objectEntries]
    dsimp only
    rw [skipGap_cursor, consume?_cursor]
    cases (skipGap c).consume? "\x7d" with
    | some e => exact shifted_pure rfl
    | none =>
      refine (shifted_ofExcept (objectKey_cursor _)).bind ?_
      rintro ⟨key, e⟩
      dsimp only [Prod.map_apply]
      rw [skipGap_cursor, consume?_cursor]
      cases (skipGap e).consume? ":" with
      | none => exact shifted_fail _
      | some e =>
        dsimp only [Option.map_some]
        rw [skipGap_cursor]
        refine (hself _ _).bind ?_
        rintro ⟨value, e⟩
        dsimp only [Prod.map_apply]
        rw [skipGap_cursor, consume?_cursor, consume?_cursor]
        cases (skipGap e).consume? "," with
        | some e => exact (ih _).bind fun _ => shifted_pure rfl
        | none =>
          dsimp only [Option.map_none]
          cases (skipGap e).consume? "\x7d" with
          | some e => exact shifted_pure rfl
          | none => exact shifted_fail _

theorem shifted_object (hself : d.Reads self self') (fuel : Nat) (c : Cursor) :
    d.Shifted (Prod.map d.base d.cursor) (Gapscript.object self fuel c)
      (Gapscript.object self' fuel (d.cursor c)) := by
  unfold Gapscript.object
  rw [consume?_cursor]
  cases c.consume? "\x7b" with
  | none => exact shifted_fail _
  | some e => exact (shifted_objectEntries hself fuel e).bind fun _ => shifted_pure rfl

theorem shifted_arrayElements (hself : d.Reads self self') (fuel : Nat) (c : Cursor) :
    d.Shifted (Prod.map d.exprs d.cursor) (arrayElements self fuel c)
      (arrayElements self' fuel (d.cursor c)) := by
  induction fuel generalizing c with
  | zero => exact shifted_throw _
  | succ fuel ih =>
    rw [arrayElements, arrayElements]
    dsimp only
    rw [skipGap_cursor, consume?_cursor]
    cases (skipGap c).consume? "]" with
    | some e => exact shifted_pure rfl
    | none =>
      refine (hself _ _).bind ?_
      rintro ⟨first, e⟩
      dsimp only [Prod.map_apply]
      rw [skipGap_cursor, consume?_cursor, consume?_cursor]
      cases (skipGap e).consume? "," with
      | some e => exact (ih _).bind fun _ => shifted_pure rfl
      | none =>
        dsimp only [Option.map_none]
        cases (skipGap e).consume? "]" with
        | some e => exact shifted_pure rfl
        | none => exact shifted_fail _

theorem shifted_array (hself : d.Reads self self') (fuel : Nat) (c : Cursor) :
    d.Shifted (Prod.map d.base d.cursor) (array self fuel c) (array self' fuel (d.cursor c)) := by
  unfold array
  rw [consume?_cursor]
  cases c.consume? "[" with
  | none => exact shifted_fail _
  | some e => exact (shifted_arrayElements hself fuel e).bind fun _ => shifted_pure rfl

theorem shifted_accessors (hself : d.Reads self self') (fuel : Nat) (c : Cursor) :
    d.Shifted (Prod.map d.accessors d.cursor) (Gapscript.accessors self fuel c)
      (Gapscript.accessors self' fuel (d.cursor c)) := by
  induction fuel generalizing c with
  | zero => exact shifted_throw _
  | succ fuel ih =>
    rw [Gapscript.accessors.eq_def, Gapscript.accessors.eq_def]
    dsimp only
    rw [rest_cursor, next_cursor, identifier_cursor, skipGap_cursor]
    split
    · cases identifier Terminator.name c.next with
      | error e => exact shifted_pure rfl
      | ok r => exact (ih _).bind fun _ => shifted_pure rfl
    · refine (hself _ _).attempt.bind fun r => ?_
      cases r with
      | none => exact shifted_pure rfl
      | some r =>
        obtain ⟨index, e⟩ := r
        dsimp only [Option.map_some, Prod.map_apply]
        rw [skipGap_cursor, consume?_cursor]
        cases (skipGap e).consume? "]" with
        | none => exact shifted_pure rfl
        | some e => exact (ih _).bind fun _ => shifted_pure rfl
    · exact shifted_pure rfl

theorem shifted_literalBase (c : Cursor) :
    d.Shifted (Prod.map d.base d.cursor) (literalBase c) (literalBase (d.cursor c)) := by
  refine shifted_ofExcept ?_
  rw [literal_cursor]
  cases hl : literal c with
  | error e => rfl
  | ok r =>
    have same : d.value r.1 = r.1 := value_of_plain (isReference_literal hl)
    change Except.ok (Base.literal r.1 false, _) = Except.ok (Base.literal (d.value r.1) false, _)
    rw [same]

theorem shifted_functionBase (term : Terminator) (c : Cursor) :
    d.Shifted (Prod.map d.base d.cursor) (functionBase term c) (functionBase term (d.cursor c)) := by
  refine shifted_ofExcept ?_
  rw [functionLiteral_cursor]
  exact map_parsed _ fun _ => rfl

theorem shifted_base (hself : d.Reads self self') (fuel : Nat) (term : Terminator) (c : Cursor) :
    d.Shifted (Prod.map d.base d.cursor) (Gapscript.base names self fuel term c)
      (Gapscript.base (d.names names) self' fuel term (d.cursor c)) := by
  unfold Gapscript.base
  rw [noMatch_cursor]
  refine shifted_firstOf_cons (shifted_call hself true term c) ?_
  refine shifted_firstOf_cons (shifted_variableName c) ?_
  refine shifted_firstOf_cons (shifted_literalBase c) ?_
  refine shifted_firstOf_cons (shifted_object hself fuel c) ?_
  refine shifted_firstOf_cons (shifted_array hself fuel c) ?_
  refine shifted_firstOf_cons (shifted_functionBase term c) ?_
  refine shifted_firstOf_cons (shifted_ofExcept (implicitString_cursor term c)) ?_
  exact shifted_fail _

theorem shifted_atom (hself : d.Reads self self') (fuel : Nat) (term : Terminator) (c : Cursor) :
    d.Shifted (Prod.map d.expr d.cursor) (atom names self fuel term c)
      (atom (d.names names) self' fuel term (d.cursor c)) :=
  (shifted_base hself fuel term c).bind fun _ =>
    (shifted_accessors hself fuel _).bind fun _ => shifted_pure rfl

theorem shifted_operand (hself : d.Reads self self') (fuel : Nat) (term : Terminator) (c : Cursor) :
    d.Shifted (Prod.map id (Prod.map d.expr d.cursor)) (operand names self fuel term c)
      (operand (d.names names) self' fuel term (d.cursor c)) := by
  have plain : d.Shifted (Prod.map d.expr d.cursor) (atom names self fuel term c)
      (atom (d.names names) self' fuel term (d.cursor c)) := shifted_atom hself fuel term c
  unfold operand
  rw [unaryRuns_cursor]
  cases unaryRuns c with
  | mk runs e =>
    cases runs with
    | nil => exact plain.bind fun _ => shifted_pure rfl
    | cons run runs =>
      refine (shifted_atom hself fuel term e).attempt.bind fun r => ?_
      cases r with
      | none => exact plain.bind fun _ => shifted_pure rfl
      | some r => exact shifted_pure rfl

/-! ### The fold -/

/-- The operands of a fold, shifted. -/
def fold (d : Shift) (f : Fold) : Fold := { f with operands := f.operands.map d.expr }

theorem apply_map (p : Pending) (es : List Expr) : p.apply (es.map d.expr) = (p.apply es).map d.expr := by
  cases p with
  | unary op width => cases es <;> rfl
  | binary op width =>
    match es with
    | [] => rfl
    | [e] => rfl
    | r :: l :: es => rfl

theorem settle_map (op : BinaryOp) (width : Nat) (es : List Expr) (ps : List Pending) :
    Fold.settle op width (es.map d.expr) ps = d.fold (Fold.settle op width es ps) := by
  induction ps generalizing es with
  | nil => rfl
  | cons p ps ih =>
    rw [Fold.settle, Fold.settle, apply_map, ih]
    split <;> rfl

theorem pushBinary_fold (f : Fold) (op : BinaryOp) (width : Nat) :
    (d.fold f).pushBinary op width = d.fold (f.pushBinary op width) := by
  unfold Fold.pushBinary
  dsimp only [fold]
  rw [settle_map]
  rfl

theorem finish_fold (f : Fold) : (d.fold f).finish = f.finish.map d.expr := by
  obtain ⟨es, ps⟩ := f
  change ps.foldl (fun es p => p.apply es) (es.map d.expr) = (ps.foldl (fun es p => p.apply es) es).map d.expr
  induction ps generalizing es with
  | nil => rfl
  | cons p ps ih => rw [List.foldl_cons, apply_map, ih, List.foldl_cons]

theorem shifted_operations (hself : d.Reads self self') (fuel : Nat) (term : Terminator) (left : Nat)
    (f : Fold) (c : Cursor) :
    d.Shifted (Prod.map d.fold d.cursor) (operations names self fuel term left f c)
      (operations (d.names names) self' fuel term left (d.fold f) (d.cursor c)) := by
  induction left generalizing f c with
  | zero => exact shifted_throw _
  | succ left ih =>
    rw [operations, operations]
    dsimp only [measureGap]
    rw [skipGap_cursor, binaryOperator_cursor]
    refine shifted_ite (shifted_pure rfl) ?_
    cases binaryOperator (skipGap c) with
    | error e => exact shifted_pure rfl
    | ok r =>
      obtain ⟨op, e⟩ := r
      dsimp only [parsed, Prod.map_apply, id]
      rw [skipGap_cursor]
      refine (shifted_operand hself fuel term _).attempt.bind fun r => ?_
      cases r with
      | none => exact shifted_pure rfl
      | some r =>
        dsimp only [Option.map_some, Prod.map_fst, Prod.map_snd]
        rw [pushBinary_fold]
        exact ih _ _

theorem shifted_expressionWith (hself : d.Reads self self') (fuel : Nat) :
    d.Reads (expressionWith names self fuel) (expressionWith (d.names names) self' fuel) := by
  intro term c
  refine (shifted_operand hself fuel term c).bind ?_
  rintro ⟨runs, e, c⟩
  refine (shifted_operations hself fuel term fuel _ c).bind ?_
  rintro ⟨f, c⟩
  refine shifted_pure ?_
  dsimp only [Prod.map_apply]
  rw [finish_fold]
  cases f.finish <;> rfl

end Productions

/-! ## Expressions -/

section Expressions

variable (names : Names)

theorem reads_expressionAt (n : Nat) : d.Reads (expressionAt names n) (expressionAt (d.names names) n) := by
  induction n with
  | zero => exact fun _ _ => shifted_throw _
  | succ n ih => exact shifted_expressionWith ih n

theorem reads_expression : d.Reads (expression names) (expression (d.names names)) :=
  fun term c => reads_expressionAt names _ term c

theorem shifted_fullExpression (c : Cursor) :
    d.Shifted d.expr (fullExpression names c) (fullExpression (d.names names) (d.cursor c)) := by
  unfold fullExpression
  rw [skipGap_cursor]
  refine (reads_expression names _ _).bind ?_
  rintro ⟨e, c⟩
  dsimp only [Prod.map_apply]
  rw [skipGap_cursor]
  exact shifted_ite (shifted_pure rfl) (shifted_fail _)

theorem shifted_readCall (strict : Bool) (term : Terminator) (c : Cursor) :
    d.Shifted (Prod.map d.base d.cursor) (readCall names strict term c)
      (readCall (d.names names) strict term (d.cursor c)) :=
  shifted_call (reads_expressionAt names _) strict term c

theorem shifted_readAccessors (c : Cursor) :
    d.Shifted (Prod.map d.accessors d.cursor) (readAccessors names c)
      (readAccessors (d.names names) (d.cursor c)) :=
  shifted_accessors (reads_expressionAt names _) _ c

end Expressions

/-! ## Declarations -/

section Headers

variable (c : Cursor)

theorem assignSign?_cursor : assignSign? (d.cursor c) = (assignSign? c).map d.cursor := by
  unfold assignSign?
  rw [rest_cursor, next_cursor]
  split <;> rfl

theorem qualifier_cursor : qualifier (d.cursor c) = d.parsed (Prod.map id d.cursor) (qualifier c) := by
  unfold qualifier
  rw [firstWord?_cursor]
  cases firstWord? c [("const", true), ("var", false)] with
  | none => rfl
  | some r =>
    obtain ⟨isConst, e⟩ := r
    dsimp only [Option.map_some, Prod.map_apply, measureGap]
    rw [skipGap_cursor, rest_cursor]
    cases gap e.rest <;> rfl

theorem lifeTimeParse_cursor :
    LifeTime.parse (d.cursor c) = d.parsed (Prod.map id d.cursor) (LifeTime.parse c) := by
  unfold LifeTime.parse
  dsimp only
  rw [rest_cursor]
  split
  · split
    · rfl
    · split
      · rw [skip_cursor]; rfl
      · rfl
  · rfl

theorem lifeTime_cursor : lifeTime (d.cursor c) = d.parsed (Prod.map id d.cursor) (lifeTime c) := by
  unfold lifeTime
  rw [startsWith_cursor, lifeTimeParse_cursor]
  split
  · refine map_parsed _ fun r => ?_
    dsimp only [Prod.map_snd]
    rw [skipGap_cursor]
    rfl
  · rfl

theorem declarationHeader_cursor :
    declarationHeader (d.cursor c) = d.parsed (Prod.map id d.cursor) (declarationHeader c) := by
  unfold declarationHeader
  rw [qualifier_cursor]
  refine bind_parsed _ ?_
  rintro ⟨nameConst, e⟩
  dsimp only [Prod.map_apply]
  rw [qualifier_cursor]
  refine bind_parsed _ ?_
  rintro ⟨valueConst, e⟩
  dsimp only [Prod.map_apply]
  rw [bindingName_cursor]
  refine bind_parsed _ ?_
  rintro ⟨name, e⟩
  dsimp only [Prod.map_apply]
  rw [skipGap_cursor, lifeTime_cursor]
  refine bind_parsed _ ?_
  rintro ⟨life, e⟩
  dsimp only [Prod.map_apply]
  rw [assignSign?_cursor]
  cases assignSign? e with
  | none => rfl
  | some e =>
    dsimp only [Option.map_some]
    rw [skipGap_cursor]
    rfl

theorem assignMode_cursor : assignMode (d.cursor c) = d.parsed (Prod.map id d.cursor) (assignMode c) := by
  unfold assignMode
  rw [assignSign?_cursor]
  cases assignSign? c with
  | some e => rfl
  | none =>
    dsimp only [Option.map_none, startsWith_cursor]
    split
    · rw [skip_cursor]; rfl
    · rfl

end Headers

/-! ## Branches -/

section Branches

variable (names : Names) (word : String)

theorem shifted_guarded (c : Cursor) :
    d.Shifted (Prod.map d.branch d.cursor) (guarded names word c)
      (guarded (d.names names) word (d.cursor c)) := by
  unfold guarded
  rw [keyword?_cursor]
  cases keyword? word c with
  | none => exact shifted_fail _
  | some start =>
    dsimp only [Option.map_some]
    rw [skipGap_cursor]
    refine (reads_expression names _ _).bind ?_
    rintro ⟨tree, e⟩
    dsimp only [Prod.map_apply]
    rw [textUntil_cursor, skipGap_cursor, block_cursor]
    exact (shifted_ofExcept rfl).bind fun _ => shifted_pure rfl

theorem shifted_elseBranches (fuel : Nat) (c : Cursor) :
    d.Shifted (Prod.map (List.map d.branch) d.cursor) (elseBranches names word fuel c)
      (elseBranches (d.names names) word fuel (d.cursor c)) := by
  induction fuel generalizing c with
  | zero => exact shifted_throw _
  | succ fuel ih =>
    rw [elseBranches, elseBranches, skipGap_cursor, keyword?_cursor]
    cases keyword? "else" (skipGap c) with
    | none => exact shifted_pure rfl
    | some e =>
      dsimp only [Option.map_some]
      rw [skipGap_cursor, block_cursor]
      refine (shifted_guarded names word _).attempt.bind fun r => ?_
      cases r with
      | some r => exact (ih _).bind fun _ => shifted_pure rfl
      | none =>
        dsimp only [Option.map_none]
        cases block (skipGap e) with
        | error err => exact shifted_pure rfl
        | ok r => exact shifted_pure rfl

theorem shifted_branches (c : Cursor) :
    d.Shifted (Prod.map (List.map d.branch) d.cursor) (branches names word c)
      (branches (d.names names) word (d.cursor c)) :=
  (shifted_guarded names word c).bind fun _ =>
    (shifted_elseBranches names word _ _).bind fun _ => shifted_pure rfl

theorem shifted_readGuards (bs : List Branch) :
    d.Shifted (List.map d.branch) (readGuards names bs) (readGuards (d.names names) (bs.map d.branch)) := by
  induction bs with
  | nil => exact shifted_pure rfl
  | cons b bs ih =>
    obtain ⟨guard, body⟩ := b
    rw [List.map_cons, readGuards, readGuards]
    cases guard with
    | none => exact ih.bind fun _ => shifted_pure rfl
    | some g => exact (shifted_fullExpression names _).bind fun _ => ih.bind fun _ => shifted_pure rfl

end Branches

/-! ## Statements -/

/-- A place to read statements in, where names stand for the same, shifted. -/
def context (d : Shift) (ctx : StatementContext) : StatementContext := { ctx with names := d.names ctx.names }

section Forms

variable (ctx : StatementContext) (c : Cursor)

theorem shifted_finish :
    d.Shifted (Prod.map id d.cursor) (ctx.finish c) ((d.context ctx).finish (d.cursor c)) := by
  unfold StatementContext.finish
  dsimp only
  rw [skipGap_cursor, statementEnd_cursor]
  exact shifted_ite (shifted_pure rfl) (shifted_ofExcept rfl)

/-- An expression and the end of the statement. -/
theorem shifted_value_finish (stmt stmt' : Expr → Bool → Statement)
    (same : ∀ e debug, stmt' (d.expr e) debug = d.statement (stmt e debug)) :
    d.Shifted (Prod.map d.statement d.cursor)
      (do
        let (value, e) ← expression ctx.names Terminator.never c
        let (debug, e) ← ctx.finish e
        pure (stmt value debug, e))
      (do
        let (value, e) ← expression (d.context ctx).names Terminator.never (d.cursor c)
        let (debug, e) ← (d.context ctx).finish e
        pure (stmt' value debug, e)) :=
  (reads_expression ctx.names _ _).bind fun _ =>
    (shifted_finish ctx _).bind fun _ => shifted_pure (congrArg (·, _) (same _ _))

theorem shifted_declarationForm :
    d.Shifted (Prod.map d.statement d.cursor) (declarationForm ctx c)
      (declarationForm (d.context ctx) (d.cursor c)) :=
  (shifted_ofExcept (declarationHeader_cursor c)).bind fun _ =>
    shifted_value_finish ctx _ (.declaration _) (.declaration _) fun _ _ => rfl

theorem shifted_assignmentForm :
    d.Shifted (Prod.map d.statement d.cursor) (assignmentForm ctx c)
      (assignmentForm (d.context ctx) (d.cursor c)) := by
  refine (shifted_ofExcept (bindingName_cursor c)).bind ?_
  rintro ⟨name, e⟩
  refine (shifted_readAccessors ctx.names e).bind ?_
  rintro ⟨accs, e⟩
  dsimp only [Prod.map_apply]
  rw [skipGap_cursor]
  refine (shifted_ofExcept (assignMode_cursor _)).bind ?_
  rintro ⟨mode, e⟩
  dsimp only [Prod.map_apply]
  cases mode with
  | step op => exact (shifted_finish ctx e).bind fun _ => shifted_pure rfl
  | plain | compound op =>
    dsimp only [id]
    rw [skipGap_cursor]
    exact shifted_value_finish ctx _ (fun value => .assignment ⟨name, accs, _, some value⟩)
      (fun value => .assignment ⟨name, d.accessors accs, _, some value⟩) fun _ _ => rfl

theorem shifted_blockForm :
    d.Shifted (Prod.map d.statement d.cursor) (blockForm c) (blockForm (d.cursor c)) :=
  (shifted_ofExcept (block_cursor c)).bind fun _ => shifted_pure rfl

theorem shifted_conditionalForm :
    d.Shifted (Prod.map d.statement d.cursor) (conditionalForm ctx c)
      (conditionalForm (d.context ctx) (d.cursor c)) :=
  (shifted_branches ctx.names "if" c).bind fun _ => shifted_pure rfl

theorem shifted_watchForm :
    d.Shifted (Prod.map d.statement d.cursor) (watchForm ctx c) (watchForm (d.context ctx) (d.cursor c)) :=
  (shifted_branches ctx.names "when" c).withNotes.bind fun _ => shifted_pure rfl

theorem shifted_functionForm :
    d.Shifted (Prod.map d.statement d.cursor) (functionForm ctx c)
      (functionForm (d.context ctx) (d.cursor c)) := by
  refine (shifted_ofExcept (identifier_cursor c _)).bind ?_
  rintro ⟨word, e⟩
  refine shifted_ite (shifted_throw_bind _ _ _) ?_
  dsimp only [measureGap, Prod.map_apply]
  rw [skipGap_cursor, rest_cursor]
  cases gap e.rest with
  | zero => exact shifted_fail _
  | succ width =>
    refine (shifted_ofExcept (bindingName_cursor _)).bind ?_
    rintro ⟨name, e⟩
    refine (shifted_ofExcept (params_cursor _)).bind ?_
    rintro ⟨ps, e⟩
    dsimp only [Prod.map_apply]
    rw [skipGap_cursor, consume?_cursor]
    cases (skipGap e).consume? "=>" with
    | none => exact shifted_fail _
    | some e =>
      dsimp only [Option.map_some]
      rw [functionBody_cursor]
      cases hb : functionBody Terminator.never e with
      | error err => exact shifted_fail _
      | ok r =>
        obtain ⟨b, e⟩ := r
        obtain ⟨text, pos, block, rfl, -⟩ := includes_functionBody hb
        refine shifted_ite ?_ ?_
        · dsimp only [Prod.map_apply]
          rw [skipGap_cursor, statementEnd_cursor]
          cases statementEnd (skipGap e) with
          | error err => exact shifted_pure rfl
          | ok r => exact shifted_pure rfl
        · exact (shifted_finish ctx e).bind fun _ => shifted_pure rfl

theorem shifted_returnForm :
    d.Shifted (Prod.map d.statement d.cursor) (returnForm ctx c)
      (returnForm (d.context ctx) (d.cursor c)) := by
  unfold returnForm
  rw [keyword?_cursor]
  cases keyword? "return" c with
  | none => exact shifted_fail _
  | some e =>
    dsimp only [Option.map_some]
    rw [skipGap_cursor]
    refine shifted_ite ?_ ?_
    · exact (shifted_finish ctx e).bind fun _ => shifted_pure rfl
    · let stmt (value : Expr) := Statement.giveBack (some value)
      exact shifted_value_finish ctx _ stmt stmt fun _ _ => rfl

theorem shifted_callForm :
    d.Shifted (Prod.map d.statement d.cursor) (callForm ctx c) (callForm (d.context ctx) (d.cursor c)) :=
  (shifted_readCall ctx.names false _ c).bind fun _ => (shifted_readAccessors ctx.names _).bind fun _ =>
    (shifted_finish ctx _).bind fun _ => shifted_pure rfl

theorem shifted_expressionForm :
    d.Shifted (Prod.map d.statement d.cursor) (expressionForm ctx c)
      (expressionForm (d.context ctx) (d.cursor c)) :=
  shifted_value_finish ctx c .expression .expression fun _ _ => rfl

theorem settled_error (e : Error) : (d.error e).settled = d.error e.settled := by
  cases e <;> rfl

/-- The same statement is read further down. -/
theorem statement_cursor :
    Gapscript.statement (d.context ctx) (d.cursor c) = match Gapscript.statement ctx c with
      | .ok r => .ok (Prod.map d.statement d.cursor r)
      | .error e => .error (d.error e) := by
  let nothing : ParseError := ⟨.unexpectedToken, "no statement matches", some c.pos⟩
  have forms : d.Shifted (Prod.map d.statement d.cursor)
      (firstOf nothing ((forms ctx).map fun form => form c))
      (firstOf (d.parseError nothing) ((forms (d.context ctx)).map fun form => form (d.cursor c))) := by
    refine shifted_firstOf_cons (shifted_declarationForm ctx c) ?_
    refine shifted_firstOf_cons (shifted_assignmentForm ctx c) ?_
    refine shifted_firstOf_cons (shifted_blockForm c) ?_
    refine shifted_firstOf_cons (shifted_conditionalForm ctx c) ?_
    refine shifted_firstOf_cons (shifted_watchForm ctx c) ?_
    refine shifted_firstOf_cons (shifted_functionForm ctx c) ?_
    refine shifted_firstOf_cons (shifted_returnForm ctx c) ?_
    refine shifted_firstOf_cons (shifted_callForm ctx c) ?_
    refine shifted_firstOf_cons (shifted_expressionForm ctx c) ?_
    exact shifted_fail nothing
  have outcome : Reading.outcome (firstOf ⟨.unexpectedToken, "no statement matches", some (d.cursor c).pos⟩
      ((Gapscript.forms (d.context ctx)).map fun form => form (d.cursor c))) = _ := forms.outcome
  unfold Gapscript.statement
  dsimp only
  rw [outcome]
  cases Reading.outcome (firstOf nothing ((Gapscript.forms ctx).map fun form => form c)) with
  | ok r => rfl
  | error e => exact congrArg Except.error (settled_error e)

end Forms

/-! ## Hoisted declarations -/

theorem hoistAt?_cursor (c : Cursor) : hoistAt? (d.cursor c) = (hoistAt? c).map d.hoist := by
  unfold hoistAt?
  rw [declarationHeader_cursor]
  cases declarationHeader c with
  | error e => rfl
  | ok r =>
    dsimp only [parsed, Prod.map_fst, Prod.map_snd, id]
    split <;> rfl

theorem hoistsFrom_position (depth : Nat) (atStart : Bool) (passed : Nat) (p : Position) (t : Text) :
    hoistsFrom depth atStart passed (d.position p) t = (hoistsFrom depth atStart passed p t).map d.hoist := by
  induction t generalizing depth atStart passed p with
  | nil => rw [hoistsFrom, hoistsFrom, List.map_nil]
  | cons x xs ih =>
    cases passed with
    | succ n => rw [hoistsFrom, hoistsFrom, after_position, ih]
    | zero =>
      have here : hoistAt? ⟨x :: xs, d.position p⟩ = (hoistAt? ⟨x :: xs, p⟩).map d.hoist :=
        hoistAt?_cursor ⟨x :: xs, p⟩
      rw [hoistsFrom, hoistsFrom]
      simp only [after_position, ih, here]
      split
      · rfl
      · rw [List.map_append]
        congr 1
        · split
          · cases hoistAt? ⟨x :: xs, p⟩ <;> rfl
          · rfl
        · repeat' split
          all_goals rfl

theorem hoists_cursor (c : Cursor) : hoists (d.cursor c) = (hoists c).map d.hoist :=
  hoistsFrom_position 0 true 0 c.pos c.rest

end Shift

end Gapscript
