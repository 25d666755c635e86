import Gapscript.Proofs.Reading.Notes

/-!
# Every variable of a guard is noted

A reading notes the variables that it resolves, and a note stays where the alternative that made it
fails. So after a reading that succeeds the notes hold every variable of its result, at any depth:
`p.Records known vars` is the judgment that they do as soon as they hold the names in `known`. A watch
therefore depends on every variable of its guards. The name of a call is not among them, whatever it
stands for.
-/

namespace Gapscript

/-! ## The variables of a tree -/

mutual

/-- The names in the tree that stand for variables. -/
def Expr.variables : Expr → List String
  | .atom b accs _ => b.variables ++ Accessor.allVariables accs
  | .unary _ e => e.variables
  | .binary _ l r => l.variables ++ r.variables

/-- The names in the base that stand for variables. -/
def Base.variables : Base → List String
  | .literal _ _ => []
  | .name name _ => [name]
  | .call _ _ args _ => Expr.allVariables args
  | .object _ values => Expr.allVariables values
  | .array elements => Expr.allVariables elements
  | .function _ => []

/-- The names in the trees that stand for variables. -/
def Expr.allVariables : List Expr → List String
  | [] => []
  | e :: es => e.variables ++ Expr.allVariables es

/-- The names in the accessors that stand for variables. -/
def Accessor.allVariables : List Accessor → List String
  | [] => []
  | .dot _ :: accs => Accessor.allVariables accs
  | .index e :: accs => e.variables ++ Accessor.allVariables accs

end

/-- The names in the guard of the branch that stand for variables. -/
def Branch.variables (b : Branch) : List String := (b.guard.map (·.tree.variables)).getD []

/-- The names in the guards of some branches that stand for variables. -/
def Branch.allVariables (bs : List Branch) : List String := bs.flatMap Branch.variables

/-- The names in the operands that stand for variables. -/
def Fold.variables (f : Fold) : List String := f.operands.flatMap Expr.variables

namespace Fold

variable {f : Fold} {known : List String}

theorem variables_subset_iff : f.variables ⊆ known ↔ ∀ e ∈ f.operands, e.variables ⊆ known := by
  simp only [Fold.variables, List.subset_def, List.mem_flatMap]
  exact ⟨fun h e he name hn => h ⟨e, he, hn⟩, fun h name ⟨e, he, hn⟩ => h e he hn⟩

theorem variables_unary (op : UnaryOp) (e : Expr) (h : e.variables ⊆ known) :
    (Expr.unary op e).variables ⊆ known := by
  rw [Expr.variables]
  exact h

theorem variables_binary (op : BinaryOp) (l r : Expr) (hl : l.variables ⊆ known) (hr : r.variables ⊆ known) :
    (Expr.binary op l r).variables ⊆ known := by
  rw [Expr.variables]
  exact List.append_subset.2 ⟨hl, hr⟩

theorem variables_pushBinary (h : f.variables ⊆ known) (op : BinaryOp) (width : Nat) :
    (f.pushBinary op width).variables ⊆ known :=
  variables_subset_iff.2 (forall_settle variables_unary variables_binary (variables_subset_iff.1 h))

theorem variables_pushOperand (h : f.variables ⊆ known) (runs : List UnaryRun) {e : Expr}
    (he : e.variables ⊆ known) : (f.pushOperand runs e).variables ⊆ known :=
  variables_subset_iff.2 (List.forall_mem_cons.2 ⟨he, variables_subset_iff.1 h⟩)

theorem variables_finish (h : f.variables ⊆ known) : ∀ e ∈ f.finish, e.variables ⊆ known :=
  forall_finish variables_unary variables_binary (variables_subset_iff.1 h)

end Fold

/-! ## The judgment -/

namespace Reading

variable {α β : Type} {known : List String}

/-- The reading drops no note, and where the known names are noted before it, the names of its result
are noted after it. -/
structure Records (known : List String) (p : Reading α) (vars : α → List String) : Prop where
  grows : ∀ l, l ⊆ notesOf (p l)
  noted : ∀ l a l', known ⊆ l → p l = .ok a l' → vars a ⊆ l'

variable {vars : α → List String} {vars' : β → List String}

theorem records_pure {a : α} (h : vars a ⊆ known) : (pure a : Reading α).Records known vars := by
  refine ⟨fun l => List.Subset.refl l, ?_⟩
  rintro l _ l' here ⟨⟩
  exact List.Subset.trans h here

theorem records_throw (e : Error) : (throw e : Reading α).Records known vars := by
  refine ⟨fun l => List.Subset.refl l, ?_⟩
  rintro l a l' here ⟨⟩

theorem records_throw_bind (e : Error) (f : α → Reading β) : (throw e >>= f).Records known vars' := by
  refine ⟨fun l => List.Subset.refl l, ?_⟩
  rintro l a l' here ⟨⟩

theorem records_fail (e : ParseError) : (fail e : Reading α).Records known vars := records_throw _

theorem records_ofExcept {r : Except ParseError α} (h : ∀ a, r = .ok a → vars a ⊆ known) :
    (ofExcept r).Records known vars := by
  cases r with
  | ok a => exact records_pure (h a rfl)
  | error e => exact records_fail e

/-- A reading that reads no variable. -/
theorem records_silent (r : Except ParseError α) : (ofExcept r).Records known fun _ => [] :=
  records_ofExcept fun _ _ => List.nil_subset _

theorem records_note (name : String) : (note name).Records known fun _ => [name] := by
  have added (l : List String) : l ⊆ noted l name ∧ name ∈ noted l name := by
    unfold noted
    split
    · next here => exact ⟨List.Subset.refl l, List.contains_iff_mem.1 here⟩
    · exact ⟨List.subset_append_left l [name], by simp⟩
  refine ⟨fun l => (added l).1, ?_⟩
  rintro l _ l' - ⟨⟩
  exact List.cons_subset.2 ⟨(added l).2, List.nil_subset _⟩

theorem Records.bind {p : Reading α} {f : α → Reading β} (hp : p.Records known vars)
    (hf : ∀ a, (f a).Records (vars a ++ known) vars') : (p >>= f).Records known vars' := by
  refine ⟨fun l => ?_, fun l b l'' here run => ?_⟩
  · have first := hp.grows l
    cases hl : p l with
    | error e l' =>
      rw [hl] at first
      rw [bind_of_error hl]
      exact first
    | ok a l' =>
      rw [hl] at first
      rw [bind_of_ok hl]
      exact List.Subset.trans first ((hf a).grows l')
  · have first := hp.grows l
    cases hl : p l with
    | error e l' =>
      rw [bind_of_error hl] at run
      cases run
    | ok a l' =>
      rw [hl] at first
      rw [bind_of_ok hl] at run
      have known : vars a ++ known ⊆ l' :=
        List.append_subset.2 ⟨hp.noted l a l' here hl, List.Subset.trans here first⟩
      exact (hf a).noted l' b l'' known run

/-- A reading that is tried notes what it notes, also where it fails. -/
theorem Records.attempt {p : Reading α} (hp : p.Records known vars) :
    p.attempt.Records known fun r => (r.map vars).getD [] := by
  refine ⟨fun l => ?_, fun l r l' here run => ?_⟩
  · have first := hp.grows l
    unfold Reading.attempt
    cases hl : p l with
    | ok a l' =>
      rw [hl] at first
      exact first
    | error e l' =>
      rw [hl] at first
      dsimp only
      split
      · exact first
      · exact first
  · unfold Reading.attempt at run
    cases hl : p l with
    | ok a l'' =>
      rw [hl] at run
      cases run
      exact hp.noted l a l' here hl
    | error e l'' =>
      rw [hl] at run
      dsimp only at run
      split at run
      · cases run
        exact List.nil_subset _
      · cases run

theorem records_firstOf {otherwise : ParseError} {ps : List (Reading α)}
    (h : ∀ p ∈ ps, p.Records known vars) : (firstOf otherwise ps).Records known vars := by
  induction ps with
  | nil => exact records_fail otherwise
  | cons p ps ih =>
    refine (h p List.mem_cons_self).attempt.bind fun r => ?_
    cases r with
    | some a => exact records_pure (List.subset_append_left _ _)
    | none => exact ih fun q hq => h q (List.mem_cons_of_mem p hq)

end Reading

/-! ## Expressions -/

section Productions

open Reading Lexical

/-- A reader of expressions notes the variables of what it reads. -/
def ExprReader.Records (self : ExprReader) : Prop :=
  ∀ term c known, (self term c).Records known fun r => r.1.variables

variable {names : Names} {self : ExprReader} (hself : self.Records) {known : List String}

include hself

theorem records_arguments (tooFew : Nat → Error) (term : Terminator) (read left : Nat) (c : Cursor) :
    (arguments self tooFew term read left c).Records known fun r => Expr.allVariables r.1 := by
  induction left generalizing read c known with
  | zero => exact records_pure (List.nil_subset _)
  | succ left ih =>
    rw [arguments]
    dsimp only
    split
    · exact records_throw_bind _ _
    · refine (hself _ _ _).attempt.bind fun r => ?_
      cases r with
      | none => exact records_throw _
      | some r =>
        obtain ⟨arg, d⟩ := r
        dsimp only [Option.map_some, Option.getD_some]
        split
        · refine records_pure ?_
          simp [Expr.allVariables]
        · split
          · exact records_throw _
          · refine (ih _ _).bind fun r => records_pure ?_
            simp [Expr.allVariables]

theorem records_call (strict : Bool) (term : Terminator) (c : Cursor) :
    (call names self strict term c).Records known fun r => r.1.variables := by
  refine (records_silent _).bind fun r => ?_
  obtain ⟨name, d⟩ := r
  dsimp only
  split
  · exact records_fail _
  · refine (records_arguments hself _ _ _ _ _).bind fun r => records_pure ?_
    simp [Base.variables]

omit hself in
theorem records_variableName (c : Cursor) :
    (variableName names c).Records known fun r => r.1.variables := by
  refine (records_silent _).bind fun r => ?_
  obtain ⟨name, d⟩ := r
  dsimp only
  split
  · exact records_fail _
  · refine (records_note name).bind fun _ => records_pure ?_
    simp [Base.variables]

theorem records_objectEntries (fuel : Nat) (c : Cursor) :
    (objectEntries self fuel c).Records known fun r => Expr.allVariables r.2.1 := by
  induction fuel generalizing c known with
  | zero => exact records_throw _
  | succ fuel ih =>
    rw [objectEntries]
    dsimp only
    split
    · exact records_pure (List.nil_subset _)
    · refine (records_silent _).bind fun r => ?_
      split
      · exact records_fail _
      · refine (hself _ _ _).bind fun r => ?_
        split
        · refine (ih _).bind fun r => records_pure ?_
          simp [Expr.allVariables]
        · split
          · refine records_pure ?_
            simp [Expr.allVariables]
          · exact records_fail _

theorem records_object (fuel : Nat) (c : Cursor) :
    (object self fuel c).Records known fun r => r.1.variables := by
  unfold object
  split
  · exact records_fail _
  · refine (records_objectEntries hself _ _).bind fun r => records_pure ?_
    simp [Base.variables]

theorem records_arrayElements (fuel : Nat) (c : Cursor) :
    (arrayElements self fuel c).Records known fun r => Expr.allVariables r.1 := by
  induction fuel generalizing c known with
  | zero => exact records_throw _
  | succ fuel ih =>
    rw [arrayElements]
    dsimp only
    split
    · exact records_pure (List.nil_subset _)
    · refine (hself _ _ _).bind fun r => ?_
      split
      · refine (ih _).bind fun r => records_pure ?_
        simp [Expr.allVariables]
      · split
        · refine records_pure ?_
          simp [Expr.allVariables]
        · exact records_fail _

theorem records_array (fuel : Nat) (c : Cursor) :
    (array self fuel c).Records known fun r => r.1.variables := by
  unfold array
  split
  · exact records_fail _
  · refine (records_arrayElements hself _ _).bind fun r => records_pure ?_
    simp [Base.variables]

theorem records_accessors (fuel : Nat) (c : Cursor) :
    (accessors self fuel c).Records known fun r => Accessor.allVariables r.1 := by
  have nothing (c : Cursor) {known : List String} :
      (pure ([], c) : Reading (List Accessor × Cursor)).Records known fun r => Accessor.allVariables r.1 :=
    records_pure (List.nil_subset _)
  induction fuel generalizing c known with
  | zero => exact records_throw _
  | succ fuel ih =>
    rw [accessors.eq_def]
    dsimp only
    split
    · split
      · exact nothing c
      · refine (ih _).bind fun r => records_pure ?_
        simp [Accessor.allVariables]
    · refine (hself _ _ _).attempt.bind fun r => ?_
      cases r with
      | none => exact nothing c
      | some r =>
        dsimp only [Option.map_some, Option.getD_some]
        split
        · exact nothing c
        · refine (ih _).bind fun r => records_pure ?_
          simp [Accessor.allVariables]
    · exact nothing c

omit hself in
theorem records_constantBase {r : Except ParseError (Base × Cursor)}
    (h : ∀ b d, r = .ok (b, d) → b.variables = []) :
    (ofExcept r).Records known fun r => r.1.variables := by
  refine records_ofExcept fun a ha => ?_
  rw [h a.1 a.2 ha]
  exact List.nil_subset _

/-- Of the alternatives for a base the calls, objects and arrays leave it to their parts to be noted, and
the variable notes itself. -/
theorem records_base (fuel : Nat) (term : Terminator) (c : Cursor) :
    (base names self fuel term c).Records known fun r => r.1.variables := by
  refine records_firstOf fun p hp => ?_
  simp only [List.mem_cons, List.not_mem_nil, or_false] at hp
  rcases hp with rfl | rfl | rfl | rfl | rfl | rfl | rfl
  · exact records_call hself true term c
  · exact records_variableName c
  · refine records_constantBase fun b d h => ?_
    cases hl : literal c with
    | error e => rw [hl] at h; cases h
    | ok r => rw [hl] at h; cases h; rfl
  · exact records_object hself fuel c
  · exact records_array hself fuel c
  · refine records_constantBase fun b d h => ?_
    cases hf : functionLiteral term c with
    | error e => rw [hf] at h; cases h
    | ok r => rw [hf] at h; cases h; rfl
  · refine records_constantBase fun b d h => ?_
    obtain ⟨t, rfl⟩ := exists_of_implicitString h
    rfl

theorem records_atom (fuel : Nat) (term : Terminator) (c : Cursor) :
    (atom names self fuel term c).Records known fun r => r.1.variables := by
  refine (records_base hself fuel term c).bind fun r => ?_
  refine (records_accessors hself fuel r.2).bind fun r' => records_pure ?_
  simp [Expr.variables]

theorem records_operand (fuel : Nat) (term : Terminator) (c : Cursor) :
    (operand names self fuel term c).Records known fun r => r.2.1.variables := by
  unfold operand
  split
  · exact (records_atom hself fuel term c).bind fun r => records_pure (List.subset_append_left _ _)
  · refine (records_atom hself fuel term _).attempt.bind fun r => ?_
    cases r with
    | some r => exact records_pure (List.subset_append_left _ _)
    | none => exact (records_atom hself fuel term c).bind fun r => records_pure (List.subset_append_left _ _)

/-- The operands that wait have been noted when the next one is read. -/
theorem records_operations (fuel : Nat) (term : Terminator) (left : Nat) {f : Fold} (c : Cursor)
    (waiting : f.variables ⊆ known) :
    (operations names self fuel term left f c).Records known fun r => r.1.variables := by
  induction left generalizing f c known with
  | zero => exact records_throw _
  | succ left ih =>
    rw [operations]
    dsimp only [measureGap]
    split
    · exact records_pure waiting
    · split
      · exact records_pure waiting
      · refine (records_operand hself fuel term _).attempt.bind fun r => ?_
        have waiting (vars : List String) : f.variables ⊆ vars ++ known :=
          List.Subset.trans waiting (List.subset_append_right _ _)
        cases r with
        | none => exact records_pure (waiting _)
        | some r =>
          refine ih _ (Fold.variables_pushOperand (Fold.variables_pushBinary (waiting _) _ _) _ ?_)
          exact List.subset_append_left _ _

theorem records_expressionWith (fuel : Nat) : (expressionWith names self fuel).Records := by
  intro term c known
  refine (records_operand hself fuel term c).bind fun r => ?_
  obtain ⟨runs, e, d⟩ := r
  have first : e.variables ⊆ e.variables ++ known := List.subset_append_left _ _
  have start : (Fold.pushOperand {} runs e).variables ⊆ e.variables ++ known :=
    Fold.variables_pushOperand (f := {}) (List.nil_subset _) runs first
  refine (records_operations hself fuel term fuel d start).bind fun r => records_pure ?_
  obtain ⟨f, d⟩ := r
  cases done : f.finish with
  | nil => exact List.Subset.trans first (List.subset_append_right _ _)
  | cons e' es => exact Fold.variables_finish (List.subset_append_left _ _) e' (by simp [done])

end Productions

section Expressions

open Reading Lexical

variable (names : Names)

theorem records_expressionAt (n : Nat) : (expressionAt names n).Records := by
  induction n with
  | zero => exact fun _ _ _ => records_throw _
  | succ n ih => exact records_expressionWith ih n

theorem records_expression : (expression names).Records := fun term c =>
  records_expressionAt names _ term c

theorem records_fullExpression (c : Cursor) (known : List String) :
    (fullExpression names c).Records known Expr.variables := by
  refine (records_expression names _ _ _).bind fun r => ?_
  dsimp only
  split
  · exact records_pure (List.subset_append_left _ _)
  · exact records_fail _

/-! ## Branches -/

theorem records_guarded (word : String) (c : Cursor) (known : List String) :
    (guarded names word c).Records known fun r => r.1.variables := by
  unfold guarded
  split
  · exact records_fail _
  · refine (records_expression names _ _ _).bind fun r => ?_
    refine (records_silent _).bind fun r' => records_pure ?_
    simp [Branch.variables]

theorem records_elseBranches (word : String) (fuel : Nat) (c : Cursor) (known : List String) :
    (elseBranches names word fuel c).Records known fun r => Branch.allVariables r.1 := by
  induction fuel generalizing c known with
  | zero => exact records_throw _
  | succ fuel ih =>
    rw [elseBranches]
    split
    · exact records_pure (List.nil_subset _)
    · refine (records_guarded names word _ _).attempt.bind fun r => ?_
      cases r with
      | some r =>
        refine (ih _ _).bind fun r' => records_pure ?_
        simp [Branch.allVariables]
      | none =>
        dsimp only
        split
        · exact records_pure (List.nil_subset _)
        · refine records_pure ?_
          simp [Branch.allVariables, Branch.variables]

theorem records_branches (word : String) (c : Cursor) (known : List String) :
    (branches names word c).Records known fun r => Branch.allVariables r.1 := by
  refine (records_guarded names word c known).bind fun r => ?_
  refine (records_elseBranches names word _ _ _).bind fun r' => records_pure ?_
  simp [Branch.allVariables]

/-- The variables of a watch's guards are among those it depends on. -/
def Statement.Covered : Statement → Prop
  | .watch bs deps => Branch.allVariables bs ⊆ deps
  | _ => True

theorem covered_statement {ctx : StatementContext} {c d : Cursor} {stmt : Statement}
    (h : statement ctx c = .ok (stmt, d)) : stmt.Covered := by
  have watches : (watchForm ctx c).Yields fun r => r.1.Covered := by
    intro l r l' run
    have records := records_branches ctx.names "when" c []
    unfold watchForm at run
    cases hl : branches ctx.names "when" c [] with
    | error e own =>
      rw [bind_of_error (by rw [Reading.withNotes, hl])] at run
      cases run
    | ok r own =>
      rw [bind_of_ok (by rw [Reading.withNotes, hl])] at run
      cases run
      exact records.noted [] r own (List.Subset.refl _) hl
  refine yields_statement (fun stmt ordinary => ?_) (fun _ _ _ => trivial) watches h
  cases stmt with
  | watch => exact ordinary.elim
  | _ => trivial

/-- Guards that are read anew have their variables noted, like those that were there before. -/
theorem records_readGuards (bs : List Branch) (known : List String) :
    (readGuards names bs).Records known Branch.allVariables := by
  induction bs generalizing known with
  | nil => exact records_pure (List.nil_subset _)
  | cons b bs ih =>
    rw [readGuards]
    split
    · next none =>
      refine (ih known).bind fun rest => records_pure ?_
      simp [Branch.allVariables, Branch.variables, none]
    · refine (records_fullExpression names _ known).bind fun tree => ?_
      refine (ih _).bind fun rest => records_pure ?_
      simp [Branch.allVariables, Branch.variables]

end Expressions

end Gapscript
