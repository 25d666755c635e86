import Gapscript.Proofs.Reading.Statement

/-!
# What a watch depends on

The variables that a watch depends on are those that reading its guards noted. A reading notes a name
once, so a watch names each of its variables once; no other statement lists names.
-/

namespace Gapscript

/-- Whatever the reading ends with satisfies `Q`. -/
def Reading.Yields {α : Type} (p : Reading α) (Q : α → Prop) : Prop := ∀ l a l', p l = .ok a l' → Q a

namespace Reading

variable {α β : Type} {Q : β → Prop}

theorem yields_pure {b : β} (h : Q b) : (pure b : Reading β).Yields Q := by
  rintro l a l' ⟨⟩
  exact h

theorem yields_throw (e : Error) : (throw e : Reading β).Yields Q := by
  rintro l a l' ⟨⟩

theorem yields_throw_bind (e : Error) (f : α → Reading β) : (throw e >>= f).Yields Q := by
  rintro l a l' ⟨⟩

theorem yields_fail (e : ParseError) : (fail e : Reading β).Yields Q := yields_throw _

theorem yields_fail_bind (e : ParseError) (f : α → Reading β) : (fail e >>= f).Yields Q :=
  yields_throw_bind _ f

theorem yields_ofExcept {r : Except ParseError β} (h : ∀ b, r = .ok b → Q b) : (ofExcept r).Yields Q := by
  cases r with
  | ok b => exact yields_pure (h b rfl)
  | error e => exact yields_fail e

theorem Yields.bind {p : Reading α} {f : α → Reading β} {P : α → Prop} (hp : p.Yields P)
    (h : ∀ a, P a → (f a).Yields Q) : (p >>= f).Yields Q := by
  intro l b l'' hrun
  cases hr : p l with
  | ok a l' =>
    rw [bind_of_ok hr] at hrun
    exact h a (hp l a l' hr) l' b l'' hrun
  | error e l' =>
    rw [bind_of_error hr] at hrun
    cases hrun

theorem yields_bind {p : Reading α} {f : α → Reading β} (h : ∀ a, (f a).Yields Q) : (p >>= f).Yields Q :=
  Yields.bind (P := fun _ => True) (fun _ _ _ _ => trivial) fun a _ => h a

theorem Yields.attempt {p : Reading β} (hp : p.Yields Q) :
    p.attempt.Yields fun r => ∀ b, r = some b → Q b := by
  intro l r l' hrun b hb
  subst hb
  unfold Reading.attempt at hrun
  cases hr : p l with
  | ok a l'' =>
    rw [hr] at hrun
    cases hrun
    exact hp l _ _ hr
  | error e l'' =>
    rw [hr] at hrun
    dsimp only at hrun
    split at hrun
    · cases hrun
    · cases hrun

theorem Yields.withNotes {p : Reading β} (hp : p.Yields Q) : p.withNotes.Yields fun r => Q r.1 := by
  intro l r l' run
  unfold Reading.withNotes at run
  cases hr : p [] with
  | ok a own =>
    rw [hr] at run
    cases run
    exact hp [] a own hr
  | error e own =>
    rw [hr] at run
    cases run

theorem yields_firstOf {otherwise : ParseError} {ps : List (Reading β)} (h : ∀ p ∈ ps, p.Yields Q) :
    (firstOf otherwise ps).Yields Q := by
  induction ps with
  | nil => exact yields_fail otherwise
  | cons p ps ih =>
    intro l b l'' hrun
    have first := h p List.mem_cons_self
    unfold firstOf at hrun
    cases hp : p l with
    | ok a l' =>
      rw [bind_of_ok (attempt_of_ok hp)] at hrun
      cases hrun
      exact first l _ _ hp
    | error e l' =>
      cases e with
      | mismatch e =>
        rw [bind_of_ok (attempt_of_mismatch hp)] at hrun
        exact ih (fun q hq => h q (List.mem_cons_of_mem p hq)) l' b l'' hrun
      | unparsable e | runtime e | exhausted =>
        rw [bind_of_error (by rw [attempt, hp]; rfl)] at hrun
        cases hrun

end Reading

open Reading in
/-- A reading with notes of its own notes every name once. -/
theorem yields_withNotes_bind {α β : Type} {p : Reading α} {f : α × List String → Reading β} {P : α → Prop}
    {Q : β → Prop} (gives : p.Gives P) (h : ∀ a own, own.Nodup → (f (a, own)).Yields Q) :
    (p.withNotes >>= f).Yields Q := by
  intro l b l'' hrun
  cases gives with
  | ok a _ run =>
    obtain ⟨own, grows, hp⟩ := run []
    have noted : p.withNotes l = .ok (a, own) l := by rw [Reading.withNotes, hp]
    rw [bind_of_ok noted] at hrun
    exact h a own (grows.2 List.nodup_nil) l b l'' hrun
  | error e _ run =>
    obtain ⟨own, -, hp⟩ := run []
    have failed : p.withNotes l = .error e l := by rw [Reading.withNotes, hp]
    rw [bind_of_error failed] at hrun
    cases hrun

open Reading in
/-- What every form of statement gives holds of a statement that is read. -/
theorem of_statement {ctx : StatementContext} {c : Cursor} {Q : Statement × Cursor → Prop}
    (each : ∀ form ∈ forms ctx, (form c).Yields Q) {r : Statement × Cursor} (h : statement ctx c = .ok r) :
    Q r := by
  have yields : (firstOf ⟨.unexpectedToken, "no statement matches", some c.pos⟩
      ((forms ctx).map fun form => form c)).Yields Q := by
    refine yields_firstOf fun p hp => ?_
    obtain ⟨form, known, rfl⟩ := List.mem_map.1 hp
    exact each form known
  unfold statement Reading.outcome at h
  dsimp only at h
  split at h
  · next r hr =>
    cases h
    split at hr
    · next a l' hrun =>
      cases hr
      exact yields [] _ _ hrun
    · cases hr
  · cases h

/-- The statement is neither a watch nor a declaration. -/
def Statement.Ordinary : Statement → Prop
  | .watch .. | .declaration .. => False
  | _ => True

section Forms

open Reading

variable {ctx : StatementContext} {c : Cursor} {Q : Statement → Prop}

theorem yields_functionForm (functions : ∀ fn, Q (.function fn)) : (functionForm ctx c).Yields fun r => Q r.1 := by
  refine yields_bind fun r => ?_
  obtain ⟨word, d⟩ := r
  dsimp only
  split
  · exact yields_fail_bind _ _
  · split
    · exact yields_fail _
    · refine yields_bind fun _ => yields_bind fun _ => ?_
      split
      · exact yields_fail _
      · refine yields_bind fun _ => ?_
        split
        · split
          · exact yields_pure (functions _)
          · exact yields_pure (functions _)
        · exact yields_bind fun _ => yields_pure (functions _)

variable (others : ∀ stmt : Statement, stmt.Ordinary → Q stmt)

include others

theorem yields_assignmentForm : (assignmentForm ctx c).Yields fun r => Q r.1 := by
  refine yields_bind fun _ => yields_bind fun _ => yields_bind fun r => ?_
  obtain ⟨mode, d⟩ := r
  cases mode with
  | step op => exact yields_bind fun _ => yields_pure (others _ trivial)
  | plain | compound op => exact yields_bind fun _ => yields_bind fun _ => yields_pure (others _ trivial)

theorem yields_returnForm : (returnForm ctx c).Yields fun r => Q r.1 := by
  unfold returnForm
  split
  · exact yields_fail _
  · dsimp only
    split
    · exact yields_bind fun _ => yields_pure (others _ trivial)
    · exact yields_bind fun _ => yields_bind fun _ => yields_pure (others _ trivial)

/-- What holds of every other statement, of declarations with a header that is read, and of what the form of
a watch gives, holds of every statement that is read. -/
theorem yields_statement
    (declarations : ∀ {header e}, declarationHeader c = .ok (header, e) →
      ∀ value debug, Q (.declaration header value debug))
    (watches : (watchForm ctx c).Yields fun r => Q r.1) {stmt : Statement} {d : Cursor}
    (h : statement ctx c = .ok (stmt, d)) : Q stmt := by
  refine of_statement (Q := fun r => Q r.1) (fun form known => ?_) h
  simp only [forms, List.mem_cons, List.not_mem_nil, or_false] at known
  rcases known with rfl | rfl | rfl | rfl | rfl | rfl | rfl | rfl | rfl
  · refine (yields_ofExcept (Q := fun r => ∀ value debug, Q (.declaration r.1 value debug))
      fun r hr => declarations hr).bind fun r known => ?_
    exact yields_bind fun _ => yields_bind fun _ => yields_pure (known _ _)
  · exact yields_assignmentForm others
  · exact yields_bind fun _ => yields_pure (others _ trivial)
  · exact yields_bind fun _ => yields_pure (others _ trivial)
  · exact watches
  · exact yields_functionForm fun _ => others _ trivial
  · exact yields_returnForm others
  · exact yields_bind fun _ => yields_bind fun _ => yields_bind fun _ => yields_pure (others _ trivial)
  · exact yields_bind fun _ => yields_bind fun _ => yields_pure (others _ trivial)

end Forms

/-- A watch names each of its variables once. -/
def Statement.Distinct : Statement → Prop
  | .watch _ deps => deps.Nodup
  | _ => True

open Reading in
/-- Of all forms only the watch lists names, and it lists each once. -/
theorem distinct_statement (ctx : StatementContext) (c : Cursor) {stmt : Statement} {d : Cursor}
    (h : statement ctx c = .ok (stmt, d)) : stmt.Distinct := by
  have watches : (watchForm ctx c).Yields fun r => r.1.Distinct := by
    have word : "when".toList ≠ [] := by decide
    have gives := (twins_branches ctx.names.accord_any word (Source.covers_any c)).gives
    exact yields_withNotes_bind gives fun _ _ distinct => yields_pure distinct
  refine yields_statement (fun stmt ordinary => ?_) (fun _ _ _ => trivial) watches h
  cases stmt with
  | watch => exact ordinary.elim
  | _ => trivial

end Gapscript
