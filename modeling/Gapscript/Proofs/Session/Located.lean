import Gapscript.Proofs.Session.Stack

/-!
# The places of failures

Operators fail without a place, which something around them fills in: the operand they stand in, the
statement that is run, the hoisted declaration that is bound. Watches are looked at between
statements, where nothing does so. A failure of a request to evaluate a text thus has a place, unless
an operator in the guard of a watch raised it.
-/

namespace Gapscript

/-- A failure of a running program has a place. -/
def Error.Located : Error → Prop
  | .runtime e => e.pos.isSome = true
  | _ => True

theorem Error.located_withPosition (e : Error) (pos : Position) :
    (e.withPosition (some pos)).Located := by
  cases e with
  | runtime e =>
    obtain ⟨cause, _ | known⟩ := e
    · exact rfl
    · exact rfl
  | mismatch e | unparsable e | exhausted => trivial

theorem located_settled {e : Error} (h : Reading.Reported e) : e.settled.Located := by
  cases h with
  | mismatch e => trivial
  | tooFew name expected got pos => exact rfl

/-! ## Failures of runs -/

/-- From the state, the run fails only with what `P` permits. -/
def Run.FailsWith (P : Error → Prop) {α : Type} (x : Run α) (s : State) : Prop :=
  ∀ e t, x s = .error e t → P e

section Rules

variable {P : Error → Prop} {α β : Type} {s : State}

theorem failsWith_pure (a : α) : Run.FailsWith P (pure a) s := fun _ _ h => nomatch h

theorem failsWith_modify (f : State → State) : Run.FailsWith P (modify f : Run PUnit) s :=
  fun _ _ h => nomatch h

theorem Run.bind_eq_error {x : Run α} {f : α → Run β} {t : State} {e : Error} :
    (x >>= f) s = .error e t ↔ x s = .error e t ∨ ∃ a u, x s = .ok a u ∧ f a u = .error e t := by
  cases hr : x s with
  | ok a u =>
    rw [Run.bind_of_ok hr]
    refine ⟨fun h => .inr ⟨a, u, rfl, h⟩, ?_⟩
    rintro (h | ⟨a', u', h, h'⟩)
    · cases h
    · cases h
      exact h'
  | error e' u =>
    rw [Run.bind_of_error hr]
    constructor
    · rintro ⟨⟩
      exact .inl rfl
    · rintro (h | ⟨a', u', h, h'⟩)
      · cases h
        rfl
      · cases h

theorem Run.FailsWith.bind {x : Run α} {f : α → Run β} (hx : x.FailsWith P s)
    (hf : ∀ a t, x s = .ok a t → (f a).FailsWith P t) : (x >>= f).FailsWith P s := by
  intro e t h
  obtain failed | ⟨a, u, hr, h⟩ := Run.bind_eq_error.1 h
  · exact hx e t failed
  · exact hf a u hr e t h

theorem Run.FailsWith.mono {Q : Error → Prop} {x : Run α} (h : x.FailsWith P s)
    (weaken : ∀ e, P e → Q e) : x.FailsWith Q s := fun e t he => weaken e (h e t he)

theorem Run.FailsWith.always {x : Run α} (h : x.FailsWith P s) (cleanup : State → State) :
    (Run.always cleanup x).FailsWith P s := by
  intro e t ht
  unfold Run.always at ht
  cases hr : x s with
  | ok a u => rw [hr] at ht; cases ht
  | error e' u =>
    rw [hr] at ht
    cases ht
    exact h e u hr

/-- Whatever fails under `locate` has a place afterwards. -/
theorem failsWith_locate (pos : Position) (x : Run α) :
    (Run.locate (some pos) x).FailsWith Error.Located s := by
  intro e t ht
  unfold Run.locate at ht
  cases hr : x s with
  | ok a u => rw [hr] at ht; cases ht
  | error e' u =>
    rw [hr] at ht
    cases ht
    exact e'.located_withPosition pos

end Rules

/-! ## Expressions -/

/-- A failure with a place, or one of an operator. -/
def Error.Simple (e : Error) : Prop := e.Located ∨ ∃ f, e = .ofFault f

section Expressions

variable (host : Host) (inner : Inner)

theorem failsWith_ofFault {α : Type} (r : Except TypeFault α) (s : State) :
    (Run.ofFault r).FailsWith Error.Simple s := by
  cases r with
  | ok a => exact failsWith_pure a
  | error f =>
    rintro e t ⟨⟩
    exact .inr ⟨f, rfl⟩

mutual

theorem failsWith_eval (e : Expr) (s : State) : (eval host inner e).FailsWith Error.Simple s := by
  cases e with
  | atom b accs pos =>
    rw [eval]
    refine ((failsWith_locate pos _).mono fun _ => .inl).bind fun v t _ => ?_
    exact failsWith_evalAccessors pos accs v t
  | unary op e =>
    rw [eval]
    exact (failsWith_eval e s).bind fun v t _ => failsWith_ofFault _ t
  | binary op l r =>
    rw [eval]
    refine (failsWith_eval l s).bind fun a t _ => ?_
    split
    · exact failsWith_pure a
    · exact failsWith_pure a
    · exact (failsWith_eval r t).bind fun b u _ => failsWith_ofFault _ u

theorem failsWith_evalAccessors (pos : Position) (accs : List Accessor) (v : Value) (s : State) :
    (evalAccessors host inner pos v accs).FailsWith Error.Simple s := by
  cases accs with
  | nil =>
    rw [evalAccessors]
    exact failsWith_pure v
  | cons acc accs =>
    rw [evalAccessors]
    refine (failsWith_evalKey acc s).bind fun key t _ => ?_
    refine Run.FailsWith.bind (x := Run.locate (some pos) _) ?_ fun v u _ => ?_
    · exact (failsWith_locate pos _).mono fun _ => .inl
    · exact failsWith_evalAccessors pos accs v u

theorem failsWith_evalKey (acc : Accessor) (s : State) :
    (evalKey host inner acc).FailsWith Error.Simple s := by
  cases acc with
  | dot name =>
    rw [evalKey]
    exact failsWith_pure name
  | index e =>
    rw [evalKey]
    exact (failsWith_eval e s).bind fun v t _ => failsWith_pure _

end

end Expressions

/-! ## Between statements -/

/-- Running the statements of a text from the state `s`, the watches are looked at in the state `v`. -/
inductive LooksIn (host : Host) (inner : Inner) (collect : Bool) (v : State) :
    (fuel : Nat) → List Hoist → Cursor → (s : State) → Prop
  | now {fuel : Nat} {hs hs' : List Hoist} {c d : Cursor} {flow : Flow} {s t u : State}
    (due : bindDue host inner hs (Lexical.skipGap c) s = .ok hs' t)
    (ran : runStatement host inner collect (Lexical.skipGap c) t = .ok (flow, d) u)
    (collected : collectValue collect flow u = .ok () v) : LooksIn host inner collect v (fuel + 1) hs c s
  | later {fuel : Nat} {hs hs' : List Hoist} {c d : Cursor} {flow : Flow} {s t u w x : State}
    (due : bindDue host inner hs (Lexical.skipGap c) s = .ok hs' t)
    (ran : runStatement host inner collect (Lexical.skipGap c) t = .ok (flow, d) u)
    (collected : collectValue collect flow u = .ok () w) (looked : checkWatches host inner w = .ok () x)
    (rest : LooksIn host inner collect v fuel hs' d x) : LooksIn host inner collect v (fuel + 1) hs c s

theorem located_bindDue {host : Host} {inner : Inner} (hoists : List Hoist) (c : Cursor) (s : State) :
    (bindDue host inner hoists c).FailsWith Error.Located s := by
  cases hoists with
  | nil => exact failsWith_pure []
  | cons h hoists => exact (failsWith_modify _).bind fun _ t _ => failsWith_locate _ _

theorem collectValue_ok (collect : Bool) (flow : Flow) (s : State) :
    ∃ t, collectValue collect flow s = .ok () t := by
  unfold collectValue
  split
  · split
    · exact ⟨_, rfl⟩
    · exact ⟨_, rfl⟩
  · exact ⟨_, rfl⟩

/-- A failure of statements has a place, or comes from a look at the watches between two of them. -/
theorem located_or_looked {host : Host} {inner : Inner} {collect : Bool} {fuel : Nat}
    {hoists : List Hoist} {c : Cursor} {s t : State} {e : Error}
    (h : statementLoop host inner collect fuel hoists c s = .error e t) :
    e.Located ∨ ∃ v, LooksIn host inner collect v fuel hoists c s ∧
      (checkWatches host inner).failure? v = some e := by
  induction fuel generalizing hoists c s with
  | zero =>
    cases h
    exact .inl trivial
  | succ fuel ih =>
    rw [statementLoop] at h
    dsimp only at h
    split at h
    · cases h
    · obtain failed | ⟨hoists', t₁, due, h⟩ := Run.bind_eq_error.1 h
      · exact .inl (located_bindDue _ _ _ e t failed)
      obtain failed | ⟨⟨flow, d⟩, t₂, ran, h⟩ := Run.bind_eq_error.1 h
      · exact .inl (failsWith_locate _ _ e t failed)
      obtain ⟨t₃, collected⟩ := collectValue_ok collect flow t₂
      rw [Run.bind_of_ok collected] at h
      have ran := Run.locate_eq_ok ran
      cases flow with
      | returned value => cases h
      | next | produced value =>
        obtain failed | ⟨_, t₄, looked, h⟩ := Run.bind_eq_error.1 h
        · exact .inr ⟨t₃, .now due ran collected, Run.failure?_eq_some.2 ⟨t, failed⟩⟩
        obtain located | ⟨v, later, failed⟩ := ih h
        · exact .inl located
        · exact .inr ⟨v, .later due ran collected looked later, failed⟩

/-! ## Watches -/

/-- A look at the watches in the state `v` comes to the watch `w` of index `j` in the state `s`, and
fires it. -/
structure Fires (host : Host) (inner : Inner) (v : State) (j : Nat) (w : Watch) (s : State) : Prop where
  before : checkWatchesFrom host inner 0 j v = .ok () s
  attached : s.watches[j]? = some w
  idle : w.firing = false
  changed : differ (s.valuesOf w.deps) w.snapshot = true

/-- The state in which a watch fires: it has taken note of the values it depends on. -/
def State.noting (s : State) (j : Nat) (w : Watch) : State :=
  s.modifyWatch j fun x => { x with snapshot := s.valuesOf w.deps }

section Fires

variable {host : Host} {inner : Inner} {v s t : State} {e : Error} {j : Nat}

/-- A look at some watches goes on from the state that the first of them leave behind. -/
theorem checkWatchesFrom_add {i count : Nat} (first : checkWatchesFrom host inner i count v = .ok () s)
    (more : Nat) :
    checkWatchesFrom host inner i (count + more) v = checkWatchesFrom host inner (i + count) more s := by
  induction count generalizing i v with
  | zero =>
    cases first
    rw [Nat.zero_add, Nat.add_zero]
  | succ count ih =>
    obtain ⟨_, u, one, rest⟩ := Run.bind_eq_ok.1 first
    rw [Nat.add_right_comm, checkWatchesFrom, Run.bind_of_ok one, ih rest]
    congr 1
    omega

/-- Looking at a watch fails only where it fires. -/
theorem fires_of_checkWatch (before : checkWatchesFrom host inner 0 j v = .ok () s)
    (h : checkWatch host inner j s = .error e t) :
    ∃ w, Fires host inner v j w s ∧ (fireWatch host inner j w).failure? (s.noting j w) = some e := by
  unfold checkWatch at h
  rw [Run.get_bind] at h
  cases hw : s.watches[j]? with
  | none => rw [hw] at h; cases h
  | some w =>
    rw [hw] at h
    dsimp only at h
    split at h
    · next due =>
      rw [Bool.and_eq_true, Bool.not_eq_true'] at due
      exact ⟨w, ⟨before, hw, due.1, due.2⟩, Run.failure?_eq_some.2 ⟨t, h⟩⟩
    · cases h

/-- A look at the watches that fails comes to the first watch that fails as it fires. -/
theorem fires_of_checkWatches (h : checkWatches host inner v = .error e t) :
    ∃ j w s, j < v.watches.length ∧ Fires host inner v j w s ∧
      (fireWatch host inner j w).failure? (s.noting j w) = some e := by
  have go (count j : Nat) (s : State) (before : checkWatchesFrom host inner 0 j v = .ok () s)
      (h : checkWatchesFrom host inner j count s = .error e t) :
      ∃ i w s, i < j + count ∧ Fires host inner v i w s ∧
        (fireWatch host inner i w).failure? (s.noting i w) = some e := by
    induction count generalizing j s with
    | zero => cases h
    | succ count ih =>
      obtain failed | ⟨_, u, looked, h⟩ := Run.bind_eq_error.1 h
      · obtain ⟨w, fires, fired⟩ := fires_of_checkWatch before failed
        exact ⟨j, w, s, Nat.lt_add_of_pos_right count.succ_pos, fires, fired⟩
      · have next : checkWatchesFrom host inner 0 (j + 1) v = .ok () u := by
          refine (checkWatchesFrom_add before 1).trans ?_
          rw [Nat.zero_add]
          exact Run.bind_of_ok looked
        obtain ⟨i, w, x, among, found⟩ := ih (j + 1) u next h
        exact ⟨i, w, x, by omega, found⟩
  obtain ⟨j, w, s, among, found⟩ := go v.watches.length 0 v rfl h
  exact ⟨j, w, s, Nat.zero_add v.watches.length ▸ among, found⟩

end Fires

/-- The failure is one of a guard: a watch that is attached has its guards read anew, and one of them
fails with it. -/
inductive GuardFails (host : Host) : Error → Prop
  | intro {n i : Nat} {w : Watch} {bs : List Branch} {b : Branch} {g : Guard} {s₀ s t u v : State}
    {e : Error} (attached : s₀.watches[i]? = some w) (reread : rereadWatch i w s = .ok bs t) (branch : b ∈ bs)
    (guard : b.guard = some g) (fails : eval host (innerAt host n) g.tree u = .error e v) :
    GuardFails host e

/-- What statements fail with: a failure with a place, the attempt to leave the global frame, or an
operator in the guard of a watch. -/
def Error.Escapes (host : Host) (e : Error) : Prop :=
  e.Located ∨ e.RefusedPop ∨ (∃ f, e = .ofFault f) ∧ GuardFails host e

section Watches

variable {host : Host} {inner : Inner}
  (bodies : ∀ collect c s, (inner.statements collect c).FailsWith (Error.Escapes host) s)

include bodies

theorem failsWith_runBlock (collect : Bool) (body : Cursor) (s : State) :
    (runBlock inner collect body).FailsWith (Error.Escapes host) s := by
  intro e t ht
  unfold runBlock Run.inFrame at ht
  cases hpush : s.push with
  | error f =>
    rw [hpush] at ht
    cases ht
    exact .inl (Error.located_withPosition _ _)
  | ok u =>
    rw [hpush] at ht
    have leaving (v : State) : Run.leave.FailsWith (Error.Escapes host) v := by
      intro e t ht
      unfold Run.leave at ht
      split at ht
      · cases ht
      · cases ht
        exact .inr (.inl ⟨none, rfl⟩)
    dsimp only at ht
    split at ht
    · exact (leaving _).bind (fun _ _ _ => failsWith_pure _) e t ht
    · next e' v failed =>
      rw [Run.get_bind] at failed
      have entered : Error.Escapes host e' :=
        (failsWith_modify _).bind (fun _ t _ => bodies collect body t) e' v failed
      refine (leaving v).bind (fun _ _ _ => ?_) e t ht
      rintro e t ⟨⟩
      exact entered

theorem failsWith_runBranches (collect : Bool) {bs : List Branch}
    (guards : ∀ b ∈ bs, ∀ g, b.guard = some g → ∀ s,
      (eval host inner g.tree).FailsWith (Error.Escapes host) s) (s : State) :
    (runBranches host inner collect bs).FailsWith (Error.Escapes host) s := by
  induction bs generalizing s with
  | nil => exact failsWith_pure none
  | cons b bs ih =>
    rw [runBranches]
    cases hg : b.guard with
    | none => exact failsWith_runBlock bodies collect b.body s
    | some g =>
      refine (guards b List.mem_cons_self g hg s).bind fun v t _ => ?_
      split
      · exact failsWith_runBlock bodies collect b.body t
      · exact ih (fun b' hb => guards b' (List.mem_cons_of_mem b hb)) t

end Watches

section Statements

variable {host : Host} {n : Nat}
  (bodies : ∀ collect c s, ((innerAt host n).statements collect c).FailsWith (Error.Escapes host) s)

theorem failsWith_rereadWatch (i : Nat) (w : Watch) (s : State) :
    (rereadWatch i w).FailsWith Error.Located s := by
  intro e t ht
  unfold rereadWatch at ht
  cases gives_readGuards s.names w.branches with
  | ok bs _ run =>
    obtain ⟨deps, -, hrun⟩ := run w.deps
    rw [hrun] at ht
    dsimp only at ht
    split at ht
    · cases ht
    · cases ht
  | error e' reported run =>
    obtain ⟨deps, -, hrun⟩ := run w.deps
    rw [hrun] at ht
    cases ht
    exact located_settled reported

include bodies

theorem failsWith_fireWatch {i : Nat} {w : Watch} {s₀ : State} (attached : s₀.watches[i]? = some w)
    (s : State) : (fireWatch host (innerAt host n) i w).FailsWith (Error.Escapes host) s := by
  refine (failsWith_modify _).bind fun _ s _ => .always ?_ _
  refine (failsWith_modify _).bind fun _ s _ => ?_
  refine ((failsWith_rereadWatch i w s).mono fun _ => .inl).bind fun bs t reread => ?_
  refine (failsWith_runBranches bodies false ?_ t).bind fun _ _ _ => failsWith_pure ()
  intro b hb g hg u e v failed
  obtain located | fault := failsWith_eval host (innerAt host n) g.tree u e v failed
  · exact .inl located
  · exact .inr (.inr ⟨fault, .intro attached reread hb hg failed⟩)

theorem failsWith_checkWatches (s : State) :
    (checkWatches host (innerAt host n)).FailsWith (Error.Escapes host) s := by
  intro e t ht
  obtain ⟨j, w, u, -, fires, failed⟩ := fires_of_checkWatches ht
  obtain ⟨x, hx⟩ := Run.failure?_eq_some.1 failed
  exact failsWith_fireWatch bodies fires.attached _ e x hx

/-- Between the statements of a text only watches are looked at; all else is given a place. -/
theorem failsWith_statementLoop (collect : Bool) (fuel : Nat) (hoists : List Hoist) (c : Cursor)
    (s : State) : (statementLoop host (innerAt host n) collect fuel hoists c).FailsWith (Error.Escapes host) s := by
  intro e t ht
  obtain located | ⟨v, -, failed⟩ := located_or_looked ht
  · exact .inl located
  · obtain ⟨u, hu⟩ := Run.failure?_eq_some.1 failed
    exact failsWith_checkWatches bodies v e u hu

end Statements

/-- With room for any number of frames, statements fail only with what may escape them. -/
theorem failsWith_statementsAt (host : Host) (n : Nat) (collect : Bool) (c : Cursor) (s : State) :
    (statementsAt host n collect c).FailsWith (Error.Escapes host) s := by
  induction n generalizing collect c s with
  | zero =>
    rintro e t ⟨⟩
    exact .inl trivial
  | succ n ih => exact failsWith_statementLoop ih collect _ (hoists c) c s

/-- In every reachable interpreter, a failure of evaluating a text has a place, unless it is the fault
of an operator in the guard of a watch, and a watch that fires between two statements of the text fails
with it. -/
theorem failures_located {i : Interpreter} (hi : i.Reachable HostFunction.KeepsFrames)
    (text file : String) {e : Error} (failed : (i.evaluate text file).1.error = some e) :
    let host := i.host false
    let c := Cursor.start text file
    let s := { i.state with produced := #[] }
    e.Located ∨ (∃ f, e = .ofFault f) ∧ GuardFails host e ∧
      ∃ v j w u, LooksIn host (innerAt host s.room) true v (c.rest.length + 1) (hoists c) c s ∧
        Fires host (innerAt host s.room) v j w u ∧
        (fireWatch host (innerAt host s.room) j w).failure? (u.noting j w) = some e := by
  intro host c s
  have run : Run.failure? (do let _ ← runSource host c) s = some e := by
    rw [← (i.collecting_eq _).1]
    exact failed
  obtain ⟨t, ht⟩ := Run.failure?_eq_some.1 run
  obtain ran | ⟨_, _, _, h⟩ := Run.bind_eq_error.1 ht
  · obtain located | ⟨v, looked, unplaced⟩ := located_or_looked ran
    · exact .inl located
    · obtain ⟨u, hu⟩ := Run.failure?_eq_some.1 unplaced
      obtain located | refused | ⟨fault, guard⟩ :=
        failsWith_checkWatches (failsWith_statementsAt host s.room) v e u hu
      · exact .inl located
      · exact absurd refused (@not_refusedPop_serve i hi (.source text file) e failed)
      · obtain ⟨j, w, x, -, fires, fired⟩ := fires_of_checkWatches hu
        exact .inr ⟨fault, guard, v, j, w, x, looked, fires, fired⟩
  · cases h

/-- An operator that fails in the body of a watch is placed by the statement it stands in. -/
theorem failures_located_in_watch :
    let place : Position := { line := 2, column := 10, offset := 25 }
    let e : Error := .runtime ⟨.type (.mixedBigint "boolean" .add), some place⟩
    ((Interpreter.new {} false).evaluate
      "var var a = 1n!\nwhen a \x7b a = a + true! \x7d\na = 2n!" "").1.error = some e ∧
      (e.Located ∨ ∃ f, e = .ofFault f) := by
  intro place e
  have failed : ((Interpreter.new {} false).evaluate
      "var var a = 1n!\nwhen a \x7b a = a + true! \x7d\na = 2n!" "").1.error = some e := by decide +kernel
  exact ⟨failed, (failures_located (.new {} false) _ _ failed).imp_right And.left⟩

/-- An operator that fails in the guard of a watch has no place. -/
theorem guard_failure_unplaced :
    ((Interpreter.new {} false).evaluate
      "var var a = 1n!\nwhen a + 1n \x7b print a! \x7d\na = true!" "").1.error =
      some (.runtime ⟨.type (.mixedBigint "boolean" .add), none⟩) := by
  decide +kernel

end Gapscript
