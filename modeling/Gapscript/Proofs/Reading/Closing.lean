import Gapscript.Proofs.Reading.Statement

/-!
# What the end of the text may close

A host may let the end of the text stand for the end of its last statement. This changes the reading
of a statement in one way only: some form gets to the end of the text and is then the statement.
-/

namespace Gapscript

open Lexical

namespace Reading

variable {α β : Type}

/-- The two readings do the same, unless the first one reads all of the text. -/
def SameUpToEnd (p q : Reading (α × Cursor)) : Prop :=
  ∀ l, p l = q l ∨ ∃ a d l', p l = .ok (a, d) l' ∧ d.rest = []

theorem SameUpToEnd.refl (p : Reading (α × Cursor)) : SameUpToEnd p p := fun _ => .inl rfl

theorem SameUpToEnd.bind (x : Reading β) {f g : β → Reading (α × Cursor)}
    (h : ∀ b, SameUpToEnd (f b) (g b)) : SameUpToEnd (x >>= f) (x >>= g) := by
  intro l
  cases hx : x l with
  | ok b l' =>
    rw [bind_of_ok hx, bind_of_ok hx]
    exact h b l'
  | error e l' =>
    rw [bind_of_error hx, bind_of_error hx]
    exact .inl rfl

theorem SameUpToEnd.orElse {p q : Reading (α × Cursor)} {ps qs : List (Reading (α × Cursor))}
    {otherwise : ParseError} (h : SameUpToEnd p q)
    (rest : SameUpToEnd (firstOf otherwise ps) (firstOf otherwise qs)) :
    SameUpToEnd (firstOf otherwise (p :: ps)) (firstOf otherwise (q :: qs)) := by
  intro l
  obtain same | ⟨a, d, l', read, ended⟩ := h l
  · have tried : p.attempt l = q.attempt l := by
      unfold attempt
      rw [same]
    unfold firstOf
    cases hq : q.attempt l with
    | error e l' =>
      rw [bind_of_error (tried.trans hq), bind_of_error hq]
      exact .inl rfl
    | ok r l' =>
      rw [bind_of_ok (tried.trans hq), bind_of_ok hq]
      cases r with
      | some a => exact .inl rfl
      | none => exact rest l'
  · exact .inr ⟨a, d, l', firstOf_of_ok read, ended⟩

end Reading

open Reading

variable (names : Names)

/-- The end of a statement is where the two readings part. -/
theorem sameUpToEnd_finish (stmt : Bool → Statement) (c : Cursor) :
    SameUpToEnd (do let (debug, d) ← StatementContext.finish ⟨names, true⟩ c; pure (stmt debug, d))
      (do let (debug, d) ← StatementContext.finish ⟨names, false⟩ c; pure (stmt debug, d)) := by
  unfold StatementContext.finish
  intro l
  by_cases ended : (skipGap c).atEnd
  · refine .inr ⟨stmt false, skipGap c, l, ?_, List.isEmpty_iff.1 ended⟩
    simp only [ended]
    rfl
  · simp only [ended]
    exact .inl rfl

theorem sameUpToEnd_value (stmt : Expr → Bool → Statement) (c : Cursor) :
    SameUpToEnd
      (do
        let (value, d) ← expression names Terminator.never c
        let (debug, d) ← StatementContext.finish ⟨names, true⟩ d
        pure (stmt value debug, d))
      (do
        let (value, d) ← expression names Terminator.never c
        let (debug, d) ← StatementContext.finish ⟨names, false⟩ d
        pure (stmt value debug, d)) :=
  .bind _ fun r => sameUpToEnd_finish names (stmt r.1) r.2

theorem sameUpToEnd_assignmentForm (c : Cursor) :
    SameUpToEnd (assignmentForm ⟨names, true⟩ c) (assignmentForm ⟨names, false⟩ c) := by
  refine .bind _ fun r => .bind _ fun accs => .bind _ ?_
  rintro ⟨mode, d⟩
  cases mode with
  | step op => exact sameUpToEnd_finish names (.assignment ⟨r.1, accs.1, .step op, none⟩) d
  | plain | compound op =>
    exact sameUpToEnd_value names (fun value => .assignment ⟨r.1, accs.1, _, some value⟩) (skipGap d)

theorem sameUpToEnd_functionForm (c : Cursor) :
    SameUpToEnd (functionForm ⟨names, true⟩ c) (functionForm ⟨names, false⟩ c) := by
  unfold functionForm
  refine .bind _ ?_
  rintro ⟨word, d⟩
  dsimp only
  split
  · exact .refl _
  · dsimp only [measureGap]
    cases gap d.rest with
    | zero => exact .refl _
    | succ width =>
      refine .bind _ fun name => .bind _ ?_
      rintro ⟨ps, f⟩
      dsimp only
      cases (skipGap f).consume? "=>" with
      | none => exact .refl _
      | some g =>
        refine .bind _ ?_
        rintro ⟨body, b⟩
        dsimp only
        split
        · exact .refl _
        · exact sameUpToEnd_finish names (fun _ => .function ⟨name.1, ps, body, c.pos.line⟩) b

theorem sameUpToEnd_returnForm (c : Cursor) :
    SameUpToEnd (returnForm ⟨names, true⟩ c) (returnForm ⟨names, false⟩ c) := by
  unfold returnForm
  cases keyword? "return" c with
  | none => exact .refl _
  | some d =>
    dsimp only
    split
    · exact sameUpToEnd_finish names (.giveBack none) d
    · exact sameUpToEnd_value names (fun value => .giveBack (some value)) (skipGap d)

theorem sameUpToEnd_callForm (c : Cursor) :
    SameUpToEnd (callForm ⟨names, true⟩ c) (callForm ⟨names, false⟩ c) :=
  .bind _ fun r => .bind _ fun accs =>
    sameUpToEnd_finish names (.call (.atom r.1 accs.1 c.pos)) accs.2

theorem sameUpToEnd_forms (otherwise : ParseError) (c : Cursor) :
    SameUpToEnd (firstOf otherwise ((forms ⟨names, true⟩).map fun form => form c))
      (firstOf otherwise ((forms ⟨names, false⟩).map fun form => form c)) := by
  refine SameUpToEnd.orElse (.bind _ fun r => sameUpToEnd_value names (.declaration r.1) r.2) ?_
  refine SameUpToEnd.orElse (sameUpToEnd_assignmentForm names c) ?_
  -- Blocks, conditionals and watches end with a body.
  refine SameUpToEnd.orElse (.refl _) ?_
  refine SameUpToEnd.orElse (.refl _) ?_
  refine SameUpToEnd.orElse (.refl _) ?_
  refine SameUpToEnd.orElse (sameUpToEnd_functionForm names c) ?_
  refine SameUpToEnd.orElse (sameUpToEnd_returnForm names c) ?_
  refine SameUpToEnd.orElse (sameUpToEnd_callForm names c) ?_
  refine SameUpToEnd.orElse (sameUpToEnd_value names .expression c) ?_
  exact .refl _

/-- A statement is read alike whether or not the end of the text may close it, unless it then goes to
the end of the text. -/
theorem statement_eq_or_ends (c : Cursor) :
    statement ⟨names, true⟩ c = statement ⟨names, false⟩ c ∨
      ∃ stmt d, statement ⟨names, true⟩ c = .ok (stmt, d) ∧ d.rest = [] := by
  unfold statement outcome
  dsimp only
  obtain same | ⟨stmt, d, l, read, ended⟩ :=
    sameUpToEnd_forms names ⟨.unexpectedToken, "no statement matches", some c.pos⟩ c []
  · exact .inl (by rw [same])
  · exact .inr ⟨stmt, d, by rw [read], ended⟩

end Gapscript
