import Gapscript.Proofs.Reading.Budget

/-!
# Readings taken apart

A reading that settles ends the same way whatever was noted, and one that misses is a mismatch
(`Reading.Settles`, `Reading.Misses`). The other way round, a reading that ended is taken apart into those it
was put together from (`ok_of_bind`, `step_of_accessors`, `step_of_operations`). An expression that was read has
taken all that it could: neither accessors nor operations go on behind it (`spent_of_operations`).
-/

namespace Gapscript

open Lexical Cursor Reading

namespace Reading

variable {α β : Type} {p : Reading α} {ps : List (Reading α)} {f : α → Reading β} {a : α} {b : β}
  {otherwise : ParseError} {l l' : List String}

/-- The reading ends with `a`, whatever was noted. -/
def Settles (p : Reading α) (a : α) : Prop := ∀ l, ∃ l', p l = .ok a l'

/-- The reading is a mismatch, whatever was noted. -/
def Misses (p : Reading α) : Prop := ∀ l, ∃ e l', p l = .error (.mismatch e) l'

/-! ## Putting together -/

theorem settles_pure (a : α) : Settles (pure a) a := fun l => ⟨l, rfl⟩

theorem Settles.bind (h : p.Settles a) (next : (f a).Settles b) : (p >>= f).Settles b := by
  intro l
  obtain ⟨m, run⟩ := h l
  obtain ⟨l', run'⟩ := next m
  exact ⟨l', (bind_of_ok run).trans run'⟩

theorem Misses.bind (h : p.Misses) : (p >>= f).Misses := by
  intro l
  obtain ⟨e, l', run⟩ := h l
  exact ⟨e, l', bind_of_error run⟩

theorem Settles.bind_misses (h : p.Settles a) (next : (f a).Misses) : (p >>= f).Misses := by
  intro l
  obtain ⟨m, run⟩ := h l
  obtain ⟨e, l', run'⟩ := next m
  exact ⟨e, l', (bind_of_ok run).trans run'⟩

theorem Settles.attempt (h : p.Settles a) : p.attempt.Settles (some a) := by
  intro l
  obtain ⟨l', run⟩ := h l
  exact ⟨l', attempt_of_ok run⟩

theorem Misses.attempt (h : p.Misses) : p.attempt.Settles none := by
  intro l
  obtain ⟨e, l', run⟩ := h l
  exact ⟨l', attempt_of_mismatch run⟩

theorem settles_ofExcept {r : Except ParseError α} (h : r = .ok a) : (ofExcept r).Settles a := by
  subst h
  exact settles_pure a

theorem misses_ofExcept {r : Except ParseError α} {e : ParseError} (h : r = .error e) : (ofExcept r).Misses := by
  subst h
  exact fun l => ⟨e, l, rfl⟩

theorem misses_fail (e : ParseError) : (fail e : Reading α).Misses := fun l => ⟨e, l, rfl⟩

theorem Settles.first (h : p.Settles a) : (firstOf otherwise (p :: ps)).Settles a :=
  h.attempt.bind (settles_pure a)

theorem Misses.next (h : p.Misses) (rest : (firstOf otherwise ps).Settles a) :
    (firstOf otherwise (p :: ps)).Settles a := h.attempt.bind rest

/-! ## Taking apart -/

theorem Misses.not_ok (h : p.Misses) (run : p l = .ok a l') : False := by
  obtain ⟨e, m, missed⟩ := h l
  rw [missed] at run
  cases run

theorem ok_of_attempt {r : Option α} (run : p.attempt l = .ok r l') :
    (∃ a, r = some a ∧ p l = .ok a l') ∨ r = none ∧ ∃ e, p l = .error (.mismatch e) l' := by
  unfold Reading.attempt at run
  cases first : p l with
  | ok a m =>
    rw [first] at run
    cases run
    exact .inl ⟨a, rfl, rfl⟩
  | error e m =>
    rw [first] at run
    dsimp only at run
    split at run
    · next mismatch =>
      cases run
      cases e with
      | mismatch e => exact .inr ⟨rfl, e, rfl⟩
      | unparsable e | runtime e | exhausted => cases mismatch
    · cases run

theorem ok_of_ofExcept {r : Except ParseError α} (run : ofExcept r l = .ok a l') : r = .ok a := by
  cases r with
  | ok b =>
    cases run
    rfl
  | error e => cases run

theorem ok_of_firstOf (run : firstOf otherwise (p :: ps) l = .ok a l') :
    p l = .ok a l' ∨ ∃ e m, p l = .error (.mismatch e) m ∧ firstOf otherwise ps m = .ok a l' := by
  obtain ⟨r, m, tried, rest⟩ := ok_of_bind run
  rcases ok_of_attempt tried with ⟨b, rfl, first⟩ | ⟨rfl, e, missed⟩
  · cases rest
    exact .inl first
  · exact .inr ⟨e, m, missed, rest⟩

end Reading

/-! ## Productions -/

section Productions

variable {names : Names} {self : ExprReader} {term : Terminator} {c d : Cursor} {l l' : List String} {fuel : Nat}

theorem accessors_dot (t : Text) (p : Position) : accessors self (fuel + 1) ⟨'.' :: t, p⟩ =
    match identifier Terminator.name ⟨t, p.after '.'⟩ with
    | .error _ => pure ([], ⟨'.' :: t, p⟩)
    | .ok (name, d) => (do
      let (more, d) ← accessors self fuel d
      pure (.dot name :: more, d)) := rfl

theorem accessors_index (t : Text) (p : Position) : accessors self (fuel + 1) ⟨'[' :: t, p⟩ = (do
    match ← Reading.attempt (self (Terminator.tokens ["]"]) (skipGap ⟨t, p.after '['⟩)) with
    | none => pure ([], ⟨'[' :: t, p⟩)
    | some (e, d) =>
      match (skipGap d).consume? "]" with
      | none => pure ([], ⟨'[' :: t, p⟩)
      | some d =>
        let (more, d) ← accessors self fuel d
        pure (.index e :: more, d)) := rfl

theorem accessors_other (other : ∀ x ∈ c.rest.head?, x ≠ '.' ∧ x ≠ '[') :
    accessors self (fuel + 1) c = pure ([], c) := by
  rw [accessors.eq_def]
  dsimp only
  split
  · next dot => exact absurd rfl (other '.' (by rw [dot]; rfl)).1
  · next bracket => exact absurd rfl (other '[' (by rw [bracket]; rfl)).2
  · rfl

/-- Accessors end where they begin, or there is a first one, and the others end where they do. -/
theorem step_of_accessors {accs : List Accessor} (run : accessors self (fuel + 1) c l = .ok (accs, d) l') :
    (accs, d) = ([], c) ∨ ∃ more e m, accessors self fuel e m = .ok (more, d) l' := by
  by_cases other : ∀ x ∈ c.rest.head?, x ≠ '.' ∧ x ≠ '['
  · rw [accessors_other other] at run
    cases run
    exact .inl rfl
  obtain ⟨t, p⟩ := c
  cases t with
  | nil => exact absurd (fun x none => nomatch none) other
  | cons x t =>
    by_cases dot : x = '.'
    · rw [dot, accessors_dot] at run
      cases named : identifier Terminator.name ⟨t, p.after '.'⟩ with
      | error e =>
        rw [named] at run
        cases run
        exact .inl (by rw [dot])
      | ok r =>
        rw [named] at run
        obtain ⟨⟨more, e⟩, m, rest, last⟩ := ok_of_bind run
        cases last
        exact .inr ⟨more, _, _, rest⟩
    · have bracket : x = '[' := by
        refine Decidable.byContradiction fun bracket => other ?_
        rintro _ ⟨⟩
        exact ⟨dot, bracket⟩
      rw [bracket, accessors_index] at run
      obtain ⟨r, m, -, rest⟩ := ok_of_bind run
      cases r with
      | none =>
        cases rest
        exact .inl (by rw [bracket])
      | some r =>
        dsimp only at rest
        cases closed : (skipGap r.2).consume? "]" with
        | none =>
          rw [closed] at rest
          cases rest
          exact .inl (by rw [bracket])
        | some d =>
          rw [closed] at rest
          obtain ⟨⟨more, e⟩, m, rest, last⟩ := ok_of_bind rest
          cases last
          exact .inr ⟨more, _, _, rest⟩

/-- An operator under the cursor, and what follows it, where the expression may go on. -/
def OperatorAt (term : Terminator) (c : Cursor) (op : BinaryOp) (d : Cursor) : Prop :=
  ¬((skipGap c).atEnd || term (skipGap c).rest) = true ∧ binaryOperator (skipGap c) = .ok (op, d)

/-- Operations end where they begin, for want of an operator or an operand, or they go on behind the operand. -/
theorem step_of_operations {left : Nat} {f : Fold} {r : Fold × Cursor}
    (run : operations names self fuel term (left + 1) f c l = .ok r l') :
    (r = (f, c) ∧ ∀ op d, OperatorAt term c op d →
        ∃ e, operand names self fuel term (skipGap d) l = .error (.mismatch e) l') ∨
      ∃ op d runs e g m, OperatorAt term c op d ∧
        operand names self fuel term (skipGap d) l = .ok (runs, e, g) m ∧
        operations names self fuel term left
          ((f.pushBinary op (gap c.rest + gap d.rest)).pushOperand runs e) g m = .ok r l' := by
  rw [operations] at run
  dsimp only [measureGap] at run
  split at run
  · next stops =>
    cases run
    exact .inl ⟨rfl, fun op d here => absurd stops here.1⟩
  · next goes =>
    cases found : binaryOperator (skipGap c) with
    | error e =>
      rw [found] at run
      cases run
      refine .inl ⟨rfl, fun op d here => ?_⟩
      rw [here.2] at found
      cases found
    | ok s =>
      obtain ⟨op, d⟩ := s
      rw [found] at run
      dsimp only at run
      obtain ⟨r, m, tried, rest⟩ := ok_of_bind run
      rcases ok_of_attempt tried with ⟨⟨runs, e, g⟩, rfl, read⟩ | ⟨rfl, e, missed⟩
      · exact .inr ⟨op, d, runs, e, g, m, ⟨goes, found⟩, read, rest⟩
      · cases rest
        refine .inl ⟨rfl, fun op' d' here => ?_⟩
        have same := here.2.symm.trans found
        cases same
        exact ⟨e, missed⟩

end Productions

/-! ## What an expression leaves -/

section Expressions

variable {names : Names} {term : Terminator} {c d : Cursor} {l l' : List String} {n : Nat}

/-- No accessors are read under the cursor. -/
def Unaccessed (names : Names) (d : Cursor) : Prop := ∀ {m fuel k r k'},
  accessors (expressionAt names m) fuel d k = .ok r k' → r = ([], d)

/-- No operations are read under the cursor. -/
def Unoperated (names : Names) (term : Terminator) (d : Cursor) : Prop := ∀ {m left f k r k'},
  operations names (expressionAt names m) m term left f d k = .ok r k' → r = (f, d)

theorem unaccessed_of_accessors {fuel : Nat} {accs : List Accessor}
    (run : accessors (expressionAt names n) fuel c l = .ok (accs, d) l') : Unaccessed names d := by
  induction fuel generalizing c l accs with
  | zero => cases run
  | succ fuel ih =>
    rcases step_of_accessors run with same | ⟨more, e, m, rest⟩
    · cases same
      exact fun run' => (accessors_end_alike run run').symm
    · exact ih rest

theorem unaccessed_of_atom {fuel : Nat} {e : Expr}
    (run : atom names (expressionAt names n) fuel term c l = .ok (e, d) l') : Unaccessed names d := by
  obtain ⟨⟨b, f⟩, m, -, rest⟩ := ok_of_bind run
  obtain ⟨⟨accs, g⟩, m', read, last⟩ := ok_of_bind rest
  cases last
  exact unaccessed_of_accessors read

/-- An operand is an atom with the operators in front of it, or without if there is none behind them. -/
theorem step_of_operand {self : ExprReader} {fuel : Nat} {runs : List UnaryRun} {e : Expr}
    (run : operand names self fuel term c l = .ok (runs, e, d) l') :
    ((unaryRuns c).1 ≠ [] ∧ runs = UnaryRun.collapse (unaryRuns c).1 ∧
        atom names self fuel term (unaryRuns c).2 l = .ok (e, d) l') ∨
      runs = [] ∧ ∃ m, atom names self fuel term c m = .ok (e, d) l' ∧
        ((unaryRuns c).1 ≠ [] → ∃ e, atom names self fuel term (unaryRuns c).2 l = .error (.mismatch e) m) := by
  unfold operand at run
  generalize unaryRuns c = prefixes at run ⊢
  obtain ⟨before, f⟩ := prefixes
  cases before with
  | nil =>
    obtain ⟨⟨e, g⟩, m, read, last⟩ := ok_of_bind run
    cases last
    exact .inr ⟨rfl, l, read, fun some => absurd rfl some⟩
  | cons first before =>
    obtain ⟨r, m, tried, rest⟩ := ok_of_bind run
    rcases ok_of_attempt tried with ⟨⟨e, g⟩, rfl, read⟩ | ⟨rfl, e, missed⟩
    · cases rest
      exact .inl ⟨List.cons_ne_nil _ _, rfl, read⟩
    · obtain ⟨⟨e, g⟩, m, read, last⟩ := ok_of_bind rest
      cases last
      exact .inr ⟨rfl, _, read, fun _ => ⟨_, missed⟩⟩

theorem unaccessed_of_operand {fuel : Nat} {runs : List UnaryRun} {e : Expr}
    (run : operand names (expressionAt names n) fuel term c l = .ok (runs, e, d) l') : Unaccessed names d := by
  rcases step_of_operand run with ⟨-, -, read⟩ | ⟨-, m, read, -⟩
  · exact unaccessed_of_atom read
  · exact unaccessed_of_atom read

/-- Behind its last operand an expression has taken all accessors and operations. -/
theorem spent_of_operations {left : Nat} {f g : Fold} (unaccessed : Unaccessed names c)
    (run : operations names (expressionAt names n) n term left f c l = .ok (g, d) l') :
    Unaccessed names d ∧ Unoperated names term d := by
  induction left generalizing c f l with
  | zero => cases run
  | succ left ih =>
    rcases step_of_operations run with ⟨same, missed⟩ | ⟨op, e, runs, tree, h, m, -, read, rest⟩
    · cases same
      refine ⟨unaccessed, fun {m left' f k r k'} run' => ?_⟩
      cases left' with
      | zero => cases run'
      | succ left' =>
        rcases step_of_operations run' with ⟨same, -⟩ | ⟨op, e, runs, tree, h, m', here, read, -⟩
        · exact same
        · obtain ⟨e', missed⟩ := missed op e here
          exact (operand_ends_alike read missed).elim
    · exact ih (unaccessed_of_operand read) rest

theorem spent_of_expressionAt {e : Expr} (run : expressionAt names n term c l = .ok (e, d) l') :
    Unaccessed names d ∧ Unoperated names term d := by
  cases n with
  | zero => cases run
  | succ n =>
    obtain ⟨⟨runs, tree, f⟩, m, read, rest⟩ :=
      ok_of_bind (show expressionWith names (expressionAt names n) n term c l = _ from run)
    obtain ⟨⟨g, h⟩, m', more, last⟩ := ok_of_bind rest
    cases last
    exact spent_of_operations (unaccessed_of_operand read) more

theorem passes_expressionAt {e : Expr} (run : expressionAt names n term c l = .ok (e, d) l') : c.Passes d := by
  obtain ⟨N, hn, hc⟩ : ∃ N, n ≤ N ∧ c.rest.length < N := ⟨n + c.rest.length + 1, by omega, by omega⟩
  have longer := (below_expressionAt names hn term c).ok run
  rw [expressionAt_eq hc] at longer
  exact (gives_expression names term c).of_run_ok longer

theorem passes_atom {e : Expr} (run : atom names (expressionAt names n) n term c l = .ok (e, d) l') : c.Passes d := by
  obtain ⟨N, hn, hc⟩ : ∃ N, n ≤ N ∧ c.rest.length ≤ N := ⟨n + c.rest.length, by omega, by omega⟩
  have longer := (below_atom (below_expressionAt names hn) hn term c).ok run
  have twins := twins_atom names.accord_any (twins_expressionAt names.accord_any N) term (Source.covers_any c) hc hc
  exact (twins.gives.of_run_ok longer).1

theorem passes_operand {runs : List UnaryRun} {e : Expr}
    (run : operand names (expressionAt names n) n term c l = .ok (runs, e, d) l') : c.Passes d := by
  obtain ⟨N, hn, hc⟩ : ∃ N, n ≤ N ∧ c.rest.length ≤ N := ⟨n + c.rest.length, by omega, by omega⟩
  have longer := (below_operand (below_expressionAt names hn) hn term c).ok run
  have twins := twins_operand names.accord_any (twins_expressionAt names.accord_any N) term (Source.covers_any c) hc hc
  exact (twins.gives.of_run_ok longer).1

end Expressions

end Gapscript
