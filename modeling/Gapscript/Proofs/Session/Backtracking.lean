import Gapscript.Proofs.Session.Reachable

/-!
# Trying forms leaves no trace

A statement is found by trying the nine forms in order, where each form is read and, if it matches,
run at once. Only a mismatch leads on to the next form. Here that is spelled out as `tryForms`,
which goes on in whatever state the failed form left behind. Since nothing that runs ends with a
mismatch, a mismatch comes from reading alone and the state is still the one the form started from;
so the forms can be read before anything runs, and one statement is run at most once.
-/

namespace Gapscript

open Reading

/-! ## Outcomes of choices -/

/-- The first alternative decides unless it does not match. -/
theorem outcome_firstOf_cons {α : Type} {p : Reading α} {ps : List (Reading α)} {otherwise : ParseError}
    {P Q : α → Prop} (hp : p.Gives P) (hps : (firstOf otherwise ps).Gives Q) :
    (firstOf otherwise (p :: ps)).outcome =
      match p.outcome with
      | .ok a => .ok a
      | .error e => if e.isMismatch then (firstOf otherwise ps).outcome else .error e := by
  unfold outcome
  rw [firstOf]
  cases hp with
  | ok a _ run =>
    obtain ⟨l, -, hrun⟩ := run []
    have tried : p.attempt [] = .ok (some a) l := by rw [attempt, hrun]
    rw [bind_of_ok tried, hrun]
    rfl
  | error e _ run =>
    obtain ⟨l, -, hrun⟩ := run []
    rw [hrun]
    dsimp only
    by_cases mismatch : e.isMismatch
    · have tried : p.attempt [] = .ok none l := by rw [attempt, hrun]; dsimp only; rw [if_pos mismatch]
      rw [bind_of_ok tried, if_pos mismatch]
      -- What the first alternative noted makes no difference to the others.
      cases hps with
      | ok b _ rest =>
        obtain ⟨_, -, after⟩ := rest l
        obtain ⟨_, -, fresh⟩ := rest []
        dsimp only
        rw [after, fresh]
      | error e' _ rest =>
        obtain ⟨_, -, after⟩ := rest l
        obtain ⟨_, -, fresh⟩ := rest []
        dsimp only
        rw [after, fresh]
    · have tried : p.attempt [] = .error e l := by rw [attempt, hrun]; dsimp only; rw [if_neg mismatch]
      rw [bind_of_error tried, if_neg mismatch]

/-! ## Nothing that runs ends with a mismatch -/

/-- A native function that does not end with a mismatch. -/
def HostFunction.Settles (f : HostFunction) : Prop :=
  f.Obeys (fun _ => True) (fun _ _ => True) fun e => e.isMismatch = false

namespace Contract

variable {host : Host} (natives : ∀ f ∈ host.functions, f.Settles)

/-- A run does not end with a mismatch. -/
def settled : Contract host where
  Pre _ := True
  Change _ _ := True
  Raised e := e.isMismatch = false
  refl _ := trivial
  trans _ _ := trivial
  stable _ _ := trivial
  step _ _ := trivial
  ordinary h := by cases h <;> rfl
  located {e} pos h := by
    obtain same | ⟨cause, -, placed⟩ := e.withPosition_cases pos
    · rw [same]
      exact h
    · rw [placed]
      rfl
  native hf _ _ _ hs := (natives _ hf _ _ hs).2 _

theorem encloses_settled : (settled natives).Encloses (settled natives) where
  enter _ _ := trivial
  leave {s u v} _ _ _ := by
    rw [Run.leave]
    cases v.pop? with
    | some w => exact trivial
    | none => exact ⟨trivial, rfl⟩
  raised h := h

theorem nested_settled (n : Nat) : (settled natives).Nested (innerAt host n) (innerAt host n) :=
  ⟨settled natives, encloses_settled natives, bodies_innerAt (encloses_settled natives) rfl n⟩

end Contract

/-- From a state, a run does not end with a mismatch. -/
def Run.Final {α : Type} (x : Run α) (s : State) : Prop :=
  ∀ e, x.failure? s = some e → e.isMismatch = false

theorem final_of_agree {host : Host} {natives : ∀ f ∈ host.functions, f.Settles} {α : Type} {x : Run α}
    {s : State} (h : (Contract.settled natives).Agree s x x) : x.Final s :=
  fun _ he => h.2.raised he

theorem settles_standard {f : HostFunction} (hf : f ∈ Library.standard) : f.Settles := by
  refine Library.obeys_standard hf (fun _ => trivial) fun complaint => ?_
  cases complaint <;> rfl

/-- Once evaluation has started from a state, no failure is a mismatch. -/
structure Settled (host : Host) (inner : Inner) (s : State) : Prop where
  expression : ∀ e, (eval host inner e).Final s
  call : ∀ fn args pos, (callFunction host inner fn args pos).Final s
  block : ∀ collect body, (runBlock inner collect body).Final s
  hoists : ∀ line hs, (bindHoists host inner line hs).Final s
  firing : ∀ i w, (fireWatch host inner i w).Final s

theorem settled_innerAt {host : Host} (natives : ∀ f ∈ host.functions, f.Settles) (n : Nat) (s : State) :
    Settled host (innerAt host n) s := by
  have nested := Contract.nested_settled natives n
  constructor
  · exact fun e => final_of_agree (Contract.agree_eval nested e trivial)
  · exact fun fn args pos => final_of_agree (Contract.agree_callFunction nested trivial fn args pos)
  · exact fun collect body => final_of_agree (Contract.agree_runBlock nested trivial collect body)
  · exact fun line hs => final_of_agree (Contract.agree_bindHoists nested trivial line hs)
  · exact fun i w => final_of_agree (Contract.agree_fireWatch nested trivial i w)

/-! ## Trying forms -/

/-- The nine forms, in the order in which they are tried. -/
def statementForms : List (StatementContext → Form) :=
  [declarationForm, assignmentForm, fun _ => blockForm, conditionalForm, watchForm, functionForm,
    returnForm, callForm, expressionForm]

section Forms

variable (host : Host) (inner : Inner) (collect : Bool)

/-- Runs a statement that was read under the cursor, and records its form. -/
def runRead (c : Cursor) (r : Statement × Cursor) : Run (Flow × Cursor) := do
  let flow ← perform host inner collect c.pos.line r.1
  Run.debug .statement ("line " ++ toString c.pos.line ++ ": " ++ r.1.form)
  pure (flow, r.2)

/-- Reads one form against the names in force and runs what it finds. -/
def runForm (c : Cursor) (form : StatementContext → Form) : Run (Flow × Cursor) := fun s =>
  match (form ⟨s.names, host.endCloses⟩ c).outcome with
  | .error e => .error e s
  | .ok r => runRead host inner collect c r s

/-- What is said where no form matches. -/
def noStatement (c : Cursor) : ParseError := ⟨.unexpectedToken, "no statement matches", some c.pos⟩

/-- Runs forms until one does not end with a mismatch. Each starts in the state that the one before
it left behind. -/
def tryForms (c : Cursor) : List (StatementContext → Form) → Run (Flow × Cursor)
  | [] => throw (.unparsable (noStatement c))
  | form :: rest => fun s =>
    match runForm host inner collect c form s with
    | .ok r t => .ok r t
    | .error e t => if e.isMismatch then tryForms c rest t else .error e t

/-- From a state, a form ends with a mismatch and leaves the state as it is. -/
def Skips (c : Cursor) (s : State) (form : StatementContext → Form) : Prop :=
  ∃ e, e.isMismatch = true ∧ runForm host inner collect c form s = .error e s

/-- Trying forms skips some of them and then does what the next one does; where it skips all of
them, the text is unparsable. -/
def Decided (c : Cursor) (s : State) (forms : List (StatementContext → Form)) : Prop :=
  (∃ skipped form rest, forms = skipped ++ form :: rest ∧
    (∀ f ∈ skipped, Skips host inner collect c s f) ∧
    tryForms host inner collect c forms s = runForm host inner collect c form s ∧
    (runForm host inner collect c form).Final s) ∨
  ((∀ f ∈ forms, Skips host inner collect c s f) ∧
    tryForms host inner collect c forms s = .error (.unparsable (noStatement c)) s)

variable {host inner collect}

theorem final_runRead {natives : ∀ f ∈ host.functions, f.Settles}
    (nested : (Contract.settled natives).Nested inner inner) (c : Cursor) (r : Statement × Cursor)
    (s : State) : (runRead host inner collect c r).Final s := by
  have agree : (Contract.settled natives).Agree s (runRead host inner collect c r)
      (runRead host inner collect c r) := by
    refine (Contract.agree_perform nested trivial collect c.pos.line r.1).bind trivial fun flow t ht => ?_
    exact (Contract.agree_debug ht _ _).bind ht fun _ u hu => Contract.agree_pure hu _
  exact final_of_agree agree

section Runs

variable {c : Cursor} {form : StatementContext → Form} {rest : List (StatementContext → Form)}
variable {s t : State} {e : Error} {r : Statement × Cursor} {a : Flow × Cursor}

theorem runForm_of_error (h : (form ⟨s.names, host.endCloses⟩ c).outcome = .error e) :
    runForm host inner collect c form s = .error e s := by
  rw [runForm, h]

theorem runForm_of_ok (h : (form ⟨s.names, host.endCloses⟩ c).outcome = .ok r) :
    runForm host inner collect c form s = runRead host inner collect c r s := by
  rw [runForm, h]

theorem tryForms_of_mismatch (h : runForm host inner collect c form s = .error e t)
    (mismatch : e.isMismatch = true) :
    tryForms host inner collect c (form :: rest) s = tryForms host inner collect c rest t := by
  rw [tryForms]
  dsimp only
  rw [h]
  exact if_pos mismatch

theorem tryForms_of_final (h : (runForm host inner collect c form).Final s) :
    tryForms host inner collect c (form :: rest) s = runForm host inner collect c form s := by
  rw [tryForms]
  dsimp only
  cases hr : runForm host inner collect c form s with
  | ok a t => rfl
  | error e t =>
    dsimp only
    rw [h e (Run.failure?_eq_some.2 ⟨t, hr⟩)]
    rfl

/-- A form that ends with a mismatch has changed nothing. -/
theorem state_of_mismatch (settled : ∀ r, (runRead host inner collect c r).Final s)
    (h : runForm host inner collect c form s = .error e t) (mismatch : e.isMismatch = true) : t = s := by
  cases hr : (form ⟨s.names, host.endCloses⟩ c).outcome with
  | error e' =>
    rw [runForm_of_error hr] at h
    cases h
    rfl
  | ok r =>
    rw [runForm_of_ok hr] at h
    rw [settled r e (Run.failure?_eq_some.2 ⟨t, h⟩)] at mismatch
    cases mismatch

/-- Reading all forms first and running the statement found does the same as trying them. -/
theorem tryForms_eq {forms : List (StatementContext → Form)}
    (readable : ∀ form ∈ forms, ∀ ctx, (form ctx c).Gives fun r => c.Passes r.2)
    (settled : ∀ r, (runRead host inner collect c r).Final s) :
    tryForms host inner collect c forms s =
      match (firstOf (noStatement c) (forms.map fun form => form ⟨s.names, host.endCloses⟩ c)).outcome with
      | .error e => .error e.settled s
      | .ok r => runRead host inner collect c r s := by
  induction forms with
  | nil => rfl
  | cons form rest ih =>
    have first := readable form List.mem_cons_self ⟨s.names, host.endCloses⟩
    have others : (firstOf (noStatement c)
        (rest.map fun form => form ⟨s.names, host.endCloses⟩ c)).Gives fun r => c.Passes r.2 := by
      refine gives_firstOf fun p hp => ?_
      obtain ⟨other, known, rfl⟩ := List.mem_map.1 hp
      exact readable other (List.mem_cons_of_mem _ known) _
    rw [List.map_cons, outcome_firstOf_cons first others]
    cases hr : (form ⟨s.names, host.endCloses⟩ c).outcome with
    | error e =>
      dsimp only
      by_cases mismatch : e.isMismatch
      · rw [tryForms_of_mismatch (runForm_of_error hr) mismatch, if_pos mismatch]
        exact ih fun other known => readable other (List.mem_cons_of_mem _ known)
      · have final : (runForm host inner collect c form).Final s := by
          intro e' he
          rw [Run.failure?, runForm_of_error hr] at he
          cases he
          exact Bool.eq_false_iff.2 mismatch
        rw [tryForms_of_final final, runForm_of_error hr, if_neg mismatch]
        cases first.of_outcome_error hr with
        | mismatch e => exact absurd rfl mismatch
        | tooFew name expected got pos => rfl
    | ok r =>
      have final : (runForm host inner collect c form).Final s := by
        intro e he
        rw [Run.failure?, runForm_of_ok hr] at he
        exact settled r e he
      rw [tryForms_of_final final, runForm_of_ok hr]

theorem tryForms_decided (settled : ∀ r, (runRead host inner collect c r).Final s)
    (forms : List (StatementContext → Form)) : Decided host inner collect c s forms := by
  induction forms with
  | nil => exact .inr ⟨(fun _ known => nomatch known), rfl⟩
  | cons form rest ih =>
    by_cases mismatch : ∃ e t, e.isMismatch = true ∧ runForm host inner collect c form s = .error e t
    · obtain ⟨e, t, mismatch, ran⟩ := mismatch
      obtain rfl := state_of_mismatch settled ran mismatch
      have skipped : Skips host inner collect c t form := ⟨e, mismatch, ran⟩
      have onward : tryForms host inner collect c (form :: rest) t = tryForms host inner collect c rest t :=
        tryForms_of_mismatch ran mismatch
      obtain ⟨before, next, after, rfl, passed, same, final⟩ | ⟨passed, none⟩ := ih
      · refine .inl ⟨form :: before, next, after, rfl, ?_, onward.trans same, final⟩
        exact List.forall_mem_cons.2 ⟨skipped, passed⟩
      · exact .inr ⟨List.forall_mem_cons.2 ⟨skipped, passed⟩, onward.trans none⟩
    · have final : (runForm host inner collect c form).Final s := by
        intro e he
        refine Bool.eq_false_iff.2 fun yes => mismatch ?_
        obtain ⟨t, ran⟩ := Run.failure?_eq_some.1 he
        exact ⟨e, t, yes, ran⟩
      exact .inl ⟨[], form, rest, rfl, (fun _ known => nomatch known), tryForms_of_final final, final⟩

end Runs

end Forms

theorem gives_statementForms {form : StatementContext → Form} (h : form ∈ statementForms)
    (ctx : StatementContext) (c : Cursor) : (form ctx c).Gives fun r => c.Passes r.2 := by
  have known : form ctx ∈ statementForms.map fun form => form ctx := List.mem_map_of_mem h
  exact gives_form known c

theorem statement_eq (ctx : StatementContext) (c : Cursor) :
    statement ctx c =
      match (firstOf (noStatement c) (statementForms.map fun form => form ctx c)).outcome with
      | .ok r => .ok r
      | .error e => .error e.settled := rfl

section Statements

variable {host : Host} {inner : Inner} {collect : Bool} {c : Cursor} {s : State}

/-- A statement is read against the names in force on its own line. -/
theorem runStatement_of_error {e : Error}
    (h : statement ⟨State.names { s with line := c.pos.line }, host.endCloses⟩ c = .error e) :
    runStatement host inner collect c s = .error e { s with line := c.pos.line } := by
  unfold runStatement
  rw [Run.modify_bind, Run.get_bind, h]
  rfl

theorem runStatement_of_ok {r : Statement × Cursor}
    (h : statement ⟨State.names { s with line := c.pos.line }, host.endCloses⟩ c = .ok r) :
    runStatement host inner collect c s = runRead host inner collect c r { s with line := c.pos.line } := by
  unfold runStatement
  rw [Run.modify_bind, Run.get_bind, h]
  rfl

theorem runStatement_eq_tryForms
    (settled : ∀ r, (runRead host inner collect c r).Final { s with line := c.pos.line }) :
    runStatement host inner collect c s =
      tryForms host inner collect c statementForms { s with line := c.pos.line } := by
  rw [tryForms_eq (fun form known ctx => gives_statementForms known ctx c) settled]
  cases hr : (firstOf (noStatement c) (statementForms.map fun form =>
      form ⟨State.names { s with line := c.pos.line }, host.endCloses⟩ c)).outcome with
  | ok r =>
    have read : statement ⟨State.names { s with line := c.pos.line }, host.endCloses⟩ c = .ok r := by
      rw [statement_eq, hr]
    exact runStatement_of_ok read
  | error e =>
    have read : statement ⟨State.names { s with line := c.pos.line }, host.endCloses⟩ c =
        .error e.settled := by
      rw [statement_eq, hr]
    exact runStatement_of_error read

end Statements

/-- In an interpreter whose native functions do not end with mismatches: a form that ends with a
mismatch leaves the state as it was, once evaluation has started no failure is a mismatch, each
statement is run by the one form that decides, and no request ends with a mismatch. -/
theorem mismatches_leave_no_trace {i : Interpreter} (natives : ∀ f ∈ i.functions, f.Settles) :
    (∀ endCloses n collect c s,
      let host := i.host endCloses
      let inner := innerAt host n
      let start := { s with line := c.pos.line }
      (∀ form ∈ statementForms, ∀ e t, e.isMismatch = true →
        runForm host inner collect c form s = .error e t → t = s) ∧
      Settled host inner s ∧
      runStatement host inner collect c s = tryForms host inner collect c statementForms start ∧
      Decided host inner collect c start statementForms) ∧
    ∀ r e, (i.serve r).1.error = some e → e.isMismatch = false := by
  constructor
  · intro endCloses n collect c s host inner start
    have settled (r : Statement × Cursor) (t : State) : (runRead host inner collect c r).Final t :=
      final_runRead (Contract.nested_settled natives n) c r t
    refine ⟨?_, settled_innerAt natives n s, ?_, ?_⟩
    · intro form _ e t mismatch ran
      exact state_of_mismatch (fun r => settled r s) ran mismatch
    · exact runStatement_eq_tryForms fun r => settled r start
    · exact tryForms_decided (fun r => settled r start) statementForms
  · intro r e failed
    obtain ⟨_, _, _, -, raised⟩ := Interpreter.answers_serve i (fun _ => Contract.settled natives)
      (fun _ => Contract.upheld_of_nested fun _ => Contract.nested_settled natives _)
      (fun _ _ _ => trivial) r
    exact raised e failed

/-- A new interpreter settles every mismatch, also those in a body that does not parse. -/
theorem mismatches_leave_no_trace_in_body :
    ∃ i : Interpreter, i = Interpreter.new {} false ∧ (∀ f ∈ i.functions, f.Settles) ∧
      ∀ e, (i.serve (.source "x = 1!\nfunction f => \x7b x++! x 3 \x7d\nf!" "")).1.error = some e →
        e.isMismatch = false := by
  have natives := (Interpreter.idle_new (fun _ => settles_standard) {} false).natives
  exact ⟨_, rfl, natives, (mismatches_leave_no_trace natives).2 _⟩

end Gapscript
