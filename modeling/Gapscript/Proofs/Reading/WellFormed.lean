import Gapscript.Proofs.Expr.Throughout

/-!
# Trees that are read are well formed

A call reads exactly as many arguments as its function takes, or it fails; an object reads a value for each
key. So whatever is read, as an expression or in a statement, has both throughout (`wellFormed_of_parsed`).
The function is part of the tree, so this does not depend on what its name stands for later.
-/

namespace Gapscript

/-- A call has as many arguments as its function takes, and an object as many keys as values. -/
def Base.Matched : Base → Prop
  | .call _ fn args _ => args.length = fn.code.arity
  | .object keys values => keys.length = values.length
  | _ => True

/-- Every call and every object in the tree is matched. -/
def Expr.WellFormed (e : Expr) : Prop := e.Throughout Base.Matched

/-- The expression in an accessor. -/
def Accessor.tree? : Accessor → Option Expr
  | .dot _ => none
  | .index e => some e

/-- The tree of a branch's guard. -/
def Branch.tree? (b : Branch) : Option Expr := b.guard.map (·.tree)

/-- The trees that a statement evaluates. -/
def Statement.trees : Statement → List Expr
  | .declaration _ value _ => [value]
  | .assignment a _ => a.accessors.filterMap Accessor.tree? ++ a.value.toList
  | .block _ => []
  | .conditional bs => bs.filterMap Branch.tree?
  | .watch bs _ => bs.filterMap Branch.tree?
  | .function _ => []
  | .giveBack value _ => value.toList
  | .call value _ => [value]
  | .expression value _ => [value]

/-- The tree has been read from a text: as an expression, or as one that a statement evaluates. -/
inductive Expr.Parsed : Expr → Prop
  | expression {names : Names} {term : Terminator} {c d : Cursor} {e : Expr} {l l' : List String}
    (read : expression names term c l = .ok (e, d) l') : Parsed e
  | statement {ctx : StatementContext} {c d : Cursor} {stmt : Statement} {e : Expr}
    (read : statement ctx c = .ok (stmt, d)) (among : e ∈ stmt.trees) : Parsed e

section Productions

open Reading Lexical

/-- The reader reads well-formed trees only. -/
def ExprReader.Sound (self : ExprReader) : Prop := ∀ term c, (self term c).Yields fun r => r.1.WellFormed

variable {names : Names} {self : ExprReader} (hself : self.Sound)

include hself

theorem matched_arguments (tooFew : Nat → Error) (term : Terminator) (read left : Nat) (c : Cursor) :
    (arguments self tooFew term read left c).Yields fun r =>
      r.1.length = left ∧ Expr.AllThroughout Base.Matched r.1 := by
  induction left generalizing read c with
  | zero => exact yields_pure ⟨rfl, trivial⟩
  | succ left ih =>
    rw [arguments]
    dsimp only
    split
    · exact yields_throw_bind _ _
    · refine (hself _ _).attempt.bind fun r hr => ?_
      cases r with
      | none => exact yields_throw _
      | some r =>
        have first := hr r rfl
        dsimp only
        split
        · next last => exact yields_pure ⟨by rw [last]; rfl, first, trivial⟩
        · split
          · exact yields_throw _
          · refine (ih _ _).bind fun r' rest => yields_pure ⟨?_, first, rest.2⟩
            rw [List.length_cons, rest.1]

theorem wellFormed_call (strict : Bool) (term : Terminator) (c : Cursor) :
    (call names self strict term c).Yields fun r => r.1.Throughout Base.Matched := by
  refine yields_bind fun r => ?_
  dsimp only
  split
  · exact yields_fail _
  · refine (matched_arguments hself _ _ _ _ _).bind fun r matched => yields_pure ?_
    rw [Base.Throughout]
    exact matched

omit hself in
theorem wellFormed_variableName (c : Cursor) :
    (variableName names c).Yields fun r => r.1.Throughout Base.Matched := by
  refine yields_bind fun r => ?_
  dsimp only
  split
  · exact yields_fail _
  · refine yields_bind fun _ => yields_pure ?_
    rw [Base.Throughout]
    trivial

theorem matched_objectEntries (fuel : Nat) (c : Cursor) :
    (objectEntries self fuel c).Yields fun r =>
      r.1.length = r.2.1.length ∧ Expr.AllThroughout Base.Matched r.2.1 := by
  induction fuel generalizing c with
  | zero => exact yields_throw _
  | succ fuel ih =>
    rw [objectEntries]
    dsimp only
    split
    · exact yields_pure ⟨rfl, trivial⟩
    · refine yields_bind fun r => ?_
      split
      · exact yields_fail _
      · refine (hself _ _).bind fun r first => ?_
        split
        · exact (ih _).bind fun r' rest => yields_pure ⟨congrArg (· + 1) rest.1, first, rest.2⟩
        · split
          · exact yields_pure ⟨rfl, first, trivial⟩
          · exact yields_fail _

theorem wellFormed_object (fuel : Nat) (c : Cursor) :
    (object self fuel c).Yields fun r => r.1.Throughout Base.Matched := by
  unfold object
  split
  · exact yields_fail _
  · refine (matched_objectEntries hself _ _).bind fun r matched => yields_pure ?_
    rw [Base.Throughout]
    exact matched

theorem wellFormed_arrayElements (fuel : Nat) (c : Cursor) :
    (arrayElements self fuel c).Yields fun r => Expr.AllThroughout Base.Matched r.1 := by
  induction fuel generalizing c with
  | zero => exact yields_throw _
  | succ fuel ih =>
    rw [arrayElements]
    dsimp only
    split
    · exact yields_pure trivial
    · refine (hself _ _).bind fun r first => ?_
      split
      · exact (ih _).bind fun r' rest => yields_pure ⟨first, rest⟩
      · split
        · exact yields_pure ⟨first, trivial⟩
        · exact yields_fail _

theorem wellFormed_array (fuel : Nat) (c : Cursor) :
    (array self fuel c).Yields fun r => r.1.Throughout Base.Matched := by
  unfold array
  split
  · exact yields_fail _
  · refine (wellFormed_arrayElements hself _ _).bind fun r elements => yields_pure ?_
    rw [Base.Throughout]
    exact ⟨trivial, elements⟩

theorem wellFormed_accessors (fuel : Nat) (c : Cursor) :
    (accessors self fuel c).Yields fun r => Accessor.AllThroughout Base.Matched r.1 := by
  induction fuel generalizing c with
  | zero => exact yields_throw _
  | succ fuel ih =>
    have nothing : (pure ([], c) : Reading (List Accessor × Cursor)).Yields fun r =>
        Accessor.AllThroughout Base.Matched r.1 := yields_pure trivial
    rw [accessors.eq_def]
    dsimp only
    split
    · split
      · exact nothing
      · exact (ih _).bind fun r more => yields_pure more
    · refine (hself _ _).attempt.bind fun r hr => ?_
      cases r with
      | none => exact nothing
      | some r =>
        have index := hr r rfl
        dsimp only
        split
        · exact nothing
        · exact (ih _).bind fun r' more => yields_pure ⟨index, more⟩
    · exact nothing

omit hself in
theorem wellFormed_plainBase {r : Except ParseError (Base × Cursor)}
    (h : ∀ b d, r = .ok (b, d) → b.Throughout Base.Matched) :
    (ofExcept r).Yields fun r => r.1.Throughout Base.Matched :=
  yields_ofExcept fun r hr => h r.1 r.2 hr

theorem wellFormed_base (fuel : Nat) (term : Terminator) (c : Cursor) :
    (base names self fuel term c).Yields fun r => r.1.Throughout Base.Matched := by
  refine yields_firstOf fun p hp => ?_
  simp only [List.mem_cons, List.not_mem_nil, or_false] at hp
  rcases hp with rfl | rfl | rfl | rfl | rfl | rfl | rfl
  · exact wellFormed_call hself true term c
  · exact wellFormed_variableName c
  · refine wellFormed_plainBase fun b d h => ?_
    cases hl : literal c with
    | error e => rw [hl] at h; cases h
    | ok r =>
      rw [hl] at h
      cases h
      rw [Base.Throughout]
      trivial
  · exact wellFormed_object hself fuel c
  · exact wellFormed_array hself fuel c
  · refine wellFormed_plainBase fun b d h => ?_
    cases hf : functionLiteral term c with
    | error e => rw [hf] at h; cases h
    | ok r =>
      rw [hf] at h
      cases h
      rw [Base.Throughout]
      trivial
  · refine wellFormed_plainBase fun b d h => ?_
    obtain ⟨t, rfl⟩ := exists_of_implicitString h
    rw [Base.Throughout]
    trivial

theorem wellFormed_atom (fuel : Nat) (term : Terminator) (c : Cursor) :
    (atom names self fuel term c).Yields fun r => r.1.WellFormed := by
  refine (wellFormed_base hself fuel term c).bind fun r whole => ?_
  refine (wellFormed_accessors hself fuel r.2).bind fun r' accs => yields_pure ?_
  rw [Expr.WellFormed, Expr.Throughout]
  exact ⟨whole, accs⟩

theorem wellFormed_operand (fuel : Nat) (term : Terminator) (c : Cursor) :
    (operand names self fuel term c).Yields fun r => r.2.1.WellFormed := by
  have whole : (atom names self fuel term c >>= fun r => pure ([], r.1, r.2) :
      Reading (List UnaryRun × Expr × Cursor)).Yields fun r => r.2.1.WellFormed :=
    (wellFormed_atom hself fuel term c).bind fun _ atom => yields_pure atom
  unfold operand
  split
  · exact whole
  · refine (wellFormed_atom hself fuel term _).attempt.bind fun r hr => ?_
    cases r with
    | some r => exact yields_pure (hr r rfl)
    | none => exact whole

theorem wellFormed_operations (fuel : Nat) (term : Terminator) (left : Nat) {f : Fold} (c : Cursor)
    (waiting : f.All Expr.WellFormed) :
    (operations names self fuel term left f c).Yields fun r => r.1.All Expr.WellFormed := by
  induction left generalizing f c with
  | zero => exact yields_throw _
  | succ left ih =>
    rw [operations]
    dsimp only [measureGap]
    split
    · exact yields_pure waiting
    · split
      · exact yields_pure waiting
      · refine (wellFormed_operand hself fuel term _).attempt.bind fun r hr => ?_
        cases r with
        | none => exact yields_pure waiting
        | some r =>
          refine ih _ ((Fold.all_pushOperand _ _ _).2 ⟨hr r rfl, ?_⟩)
          exact (Fold.all_pushBinary (Expr.operandwise_throughout Base.Matched) f _ _).2 waiting

theorem wellFormed_expressionWith (fuel : Nat) : (expressionWith names self fuel).Sound := by
  intro term c
  refine (wellFormed_operand hself fuel term c).bind fun r first => ?_
  obtain ⟨runs, e, d⟩ := r
  have start : (Fold.pushOperand {} runs e).All Expr.WellFormed := List.forall_mem_singleton.2 first
  refine (wellFormed_operations hself fuel term fuel d start).bind fun r folded => yields_pure ?_
  have whole := (Fold.all_finish (Expr.operandwise_throughout Base.Matched) r.1).2 folded
  cases done : r.1.finish with
  | nil => exact first
  | cons e' es => exact whole e' (by rw [done]; exact List.mem_cons_self)

omit hself in
theorem wellFormed_expressionAt (names : Names) (n : Nat) : (expressionAt names n).Sound := by
  induction n with
  | zero => exact fun _ _ => yields_throw _
  | succ n ih => exact wellFormed_expressionWith ih n

end Productions

/-! ## Statements -/

section Forms

open Reading

theorem wellFormed_expression (names : Names) : (expression names).Sound := fun term c =>
  wellFormed_expressionAt names _ term c

/-- Every tree that the statement evaluates is well formed. -/
def Statement.WellFormed (stmt : Statement) : Prop := ∀ e ∈ stmt.trees, e.WellFormed

variable {ctx : StatementContext} {c : Cursor}

theorem wellFormed_trees {accs : List Accessor} (h : Accessor.AllThroughout Base.Matched accs) :
    ∀ e ∈ accs.filterMap Accessor.tree?, e.WellFormed := by
  intro e he
  obtain ⟨acc, among, here⟩ := List.mem_filterMap.1 he
  cases acc with
  | dot name => cases here
  | index e' =>
    cases here
    exact Accessor.allThroughout_iff.1 h _ among

theorem wellFormed_guarded (word : String) (names : Names) (c : Cursor) :
    (guarded names word c).Yields fun r => ∀ e ∈ r.1.tree?, e.WellFormed := by
  unfold guarded
  split
  · exact yields_fail _
  · refine (wellFormed_expression names _ _).bind fun r guard => yields_bind fun _ => yields_pure ?_
    rintro e ⟨⟩
    exact guard

/-- Every guard of the branches is well formed. -/
def Branch.Sound (bs : List Branch) : Prop := ∀ e ∈ bs.filterMap Branch.tree?, e.WellFormed

theorem sound_nil : Branch.Sound [] := fun _ none => absurd none List.not_mem_nil

theorem sound_cons {b : Branch} {bs : List Branch} (hb : ∀ e ∈ b.tree?, e.WellFormed) (hbs : Branch.Sound bs) :
    Branch.Sound (b :: bs) := by
  intro e he
  rw [List.filterMap_cons] at he
  cases found : b.tree? with
  | none =>
    rw [found] at he
    exact hbs e he
  | some guard =>
    rw [found] at he hb
    rcases List.mem_cons.1 he with rfl | he
    · exact hb e rfl
    · exact hbs e he

theorem sound_elseBranches (word : String) (names : Names) (fuel : Nat) (c : Cursor) :
    (elseBranches names word fuel c).Yields fun r => Branch.Sound r.1 := by
  have nothing (c : Cursor) : (pure ([], c) : Reading (List Branch × Cursor)).Yields fun r =>
      Branch.Sound r.1 := yields_pure sound_nil
  induction fuel generalizing c with
  | zero => exact yields_throw _
  | succ fuel ih =>
    rw [elseBranches]
    split
    · exact nothing c
    · refine (wellFormed_guarded word names _).attempt.bind fun r hr => ?_
      cases r with
      | some r => exact (ih _).bind fun r' rest => yields_pure (sound_cons (hr r rfl) rest)
      | none =>
        dsimp only
        split
        · exact nothing c
        · exact yields_pure sound_nil

theorem sound_branches (word : String) (names : Names) (c : Cursor) :
    (branches names word c).Yields fun r => Branch.Sound r.1 :=
  (wellFormed_guarded word names c).bind fun _ first =>
    (sound_elseBranches word names _ _).bind fun _ rest => yields_pure (sound_cons first rest)

theorem wellFormed_assignmentForm : (assignmentForm ctx c).Yields fun r => r.1.WellFormed := by
  refine yields_bind fun named => ?_
  refine (wellFormed_accessors (wellFormed_expressionAt ctx.names _) _ _).bind fun r accs => ?_
  have path := wellFormed_trees accs
  refine yields_bind fun r' => ?_
  obtain ⟨mode, d⟩ := r'
  cases mode with
  | step op =>
    refine yields_bind fun _ => yields_pure fun e he => ?_
    rcases List.mem_append.1 he with he | he
    · exact path e he
    · cases he
  | plain | compound op =>
    refine (wellFormed_expression ctx.names _ _).bind fun value whole => ?_
    refine yields_bind fun _ => yields_pure fun e he => ?_
    rcases List.mem_append.1 he with he | he
    · exact path e he
    · cases List.mem_singleton.1 he
      exact whole

theorem wellFormed_returnForm : (returnForm ctx c).Yields fun r => r.1.WellFormed := by
  unfold returnForm
  split
  · exact yields_fail _
  · dsimp only
    split
    · exact yields_bind fun _ => yields_pure fun _ none => nomatch none
    · refine (wellFormed_expression ctx.names _ _).bind fun value whole => ?_
      exact yields_bind fun _ => yields_pure (List.forall_mem_singleton.2 whole)

theorem wellFormed_callForm : (callForm ctx c).Yields fun r => r.1.WellFormed := by
  refine (wellFormed_call (wellFormed_expressionAt ctx.names _) false _ c).bind fun r call => ?_
  refine (wellFormed_accessors (wellFormed_expressionAt ctx.names _) _ _).bind fun r' accs => ?_
  refine yields_bind fun _ => yields_pure (List.forall_mem_singleton.2 ?_)
  rw [Expr.WellFormed, Expr.Throughout]
  exact ⟨call, accs⟩

theorem wellFormed_form {form : Form} (h : form ∈ forms ctx) : (form c).Yields fun r => r.1.WellFormed := by
  have nothing {stmt : Statement} (none : stmt.trees = []) : stmt.WellFormed := by
    intro e he
    rw [none] at he
    cases he
  simp only [forms, List.mem_cons, List.not_mem_nil, or_false] at h
  rcases h with rfl | rfl | rfl | rfl | rfl | rfl | rfl | rfl | rfl
  · refine yields_bind fun _ => (wellFormed_expression ctx.names _ _).bind fun value whole => ?_
    exact yields_bind fun _ => yields_pure (List.forall_mem_singleton.2 whole)
  · exact wellFormed_assignmentForm
  · exact yields_bind fun _ => yields_pure (nothing rfl)
  · exact (sound_branches _ _ _).bind fun _ sound => yields_pure sound
  · exact (sound_branches _ _ _).withNotes.bind fun _ sound => yields_pure sound
  · exact yields_functionForm fun _ => nothing rfl
  · exact wellFormed_returnForm
  · exact wellFormed_callForm
  · refine (wellFormed_expression ctx.names _ _).bind fun value whole => ?_
    exact yields_bind fun _ => yields_pure (List.forall_mem_singleton.2 whole)

/-- Every tree that has been read is well formed. -/
theorem wellFormed_of_parsed {e : Expr} (h : e.Parsed) : e.WellFormed := by
  cases h with
  | expression read => exact wellFormed_expression _ _ _ _ _ _ read
  | statement read among =>
    exact of_statement (Q := fun r => r.1.WellFormed) (fun _ known => wellFormed_form known) read _ among

end Forms

end Gapscript
