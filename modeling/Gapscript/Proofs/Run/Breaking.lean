import Gapscript.Proofs.Run.Task
import Mathlib.Logic.Relation

/-!
# What becomes of a failure

Nothing that the interpreter does recovers from a failure: a task that comes to one that fails with a place
fails with the same, or at the frame of a body that cannot be left. `x.Breaks e s` says so of a run, and its
rules follow the combinators; `Starts.breaks` takes one step from a task to one that comes to it, and
`breaks_of_starts` any number of them. A failure that begins with a task is what this task fails with
(`Raises.breaks`), so of all the tasks that a run comes to none raises any other failure than the run itself.
-/

namespace Gapscript

open Reading

/-- The run fails with the failure, or because a frame cannot be left. -/
def Run.Breaks (e : Error) {α : Type} (x : Run α) (s : State) : Prop :=
  ∃ e' t, x s = .error e' t ∧ (e' = e ∨ e'.RefusedPop)

theorem Error.withPosition_of_pos? {e : Error} {p : Position} (h : e.pos? = some p) (pos : Option Position) :
    e.withPosition pos = e := by
  obtain same | ⟨cause, rfl, -⟩ := e.withPosition_cases pos
  · exact same
  · cases h

/-- A failure without a place that is given one has this one, if it takes any. -/
theorem Error.pos?_withPosition {e : Error} (unplaced : e.pos? = none) {pos p : Position}
    (h : (e.withPosition (some pos)).pos? = some p) : (e.withPosition (some pos)).pos? = some pos := by
  obtain same | ⟨cause, rfl, moved⟩ := e.withPosition_cases (some pos)
  · rw [same, unplaced] at h
    cases h
  · rw [moved]
    rfl

theorem Error.withPosition_withPosition (e : Error) (pos : Position) (other : Option Position) :
    (e.withPosition (some pos)).withPosition other = e.withPosition (some pos) := by
  cases e with
  | runtime e =>
    obtain ⟨cause, _ | known⟩ := e
    · rfl
    · rfl
  | mismatch e | unparsable e | exhausted => rfl

theorem exists_of_map_ok {ε α β : Type} {f : α → β} {r : Except ε α} {b : β} (h : r.map f = .ok b) :
    ∃ a, r = .ok a ∧ f a = b := by
  cases r with
  | ok a => exact ⟨a, rfl, Except.ok.inj h⟩
  | error e => cases h

theorem error_of_map_error {ε α β : Type} {f : α → β} {r : Except ε α} {e : ε} (h : r.map f = .error e) :
    r = .error e := by
  cases r with
  | ok a => cases h
  | error e' => exact congrArg Except.error (Except.error.inj h)

/-! ## Rules -/

section Rules

variable {α β : Type} {e : Error} {p : Position} {s t : State} {x : Run α} {f : α → Run β}

theorem breaks_of_error (failed : x s = .error e t) : x.Breaks e s := ⟨e, t, failed, .inl rfl⟩

theorem Run.Breaks.congr {y : Run α} (same : y t = x s) (h : x.Breaks e s) : y.Breaks e t := by
  obtain ⟨e', u, run, kept⟩ := h
  exact ⟨e', u, same.trans run, kept⟩

theorem Run.Breaks.bind (h : x.Breaks e s) : (x >>= f).Breaks e s := by
  obtain ⟨e', u, run, kept⟩ := h
  exact ⟨e', u, Run.bind_of_error run, kept⟩

/-- What comes first succeeds, and the rest breaks. -/
theorem breaks_after {a : α} (first : x s = .ok a t) (h : (f a).Breaks e t) : (x >>= f).Breaks e s := by
  obtain ⟨e', u, run, kept⟩ := h
  exact ⟨e', u, (Run.bind_of_ok first).trans run, kept⟩

theorem breaks_bind_congr {y : Run α} (same : x s = y t) (h : (y >>= f).Breaks e t) : (x >>= f).Breaks e s := by
  refine h.congr ?_
  change EStateM.bind x f s = EStateM.bind y f t
  rw [EStateM.bind, EStateM.bind, same]

theorem Run.Breaks.get_bind {f : State → Run β} (h : (f s).Breaks e s) : (get >>= f : Run β).Breaks e s := h

theorem Run.Breaks.modify_bind {g : State → State} {f : PUnit → Run β} (h : (f ⟨⟩).Breaks e (g s)) :
    (modify g >>= f : Run β).Breaks e s := h

theorem Run.Breaks.locate (placed : e.pos? = some p) (h : x.Breaks e s) (pos : Option Position) :
    (Run.locate pos x).Breaks e s := by
  obtain ⟨e', u, run, kept⟩ := h
  refine ⟨e'.withPosition pos, u, by rw [Run.locate, run], ?_⟩
  obtain rfl | ⟨place, rfl⟩ := kept
  · exact .inl (Error.withPosition_of_pos? placed pos)
  · cases place with
    | none => exact .inr ⟨pos, rfl⟩
    | some place => exact .inr ⟨some place, rfl⟩

theorem Run.Breaks.always {cleanup : State → State} (h : x.Breaks e s) : (Run.always cleanup x).Breaks e s := by
  obtain ⟨e', u, run, kept⟩ := h
  exact ⟨e', cleanup u, by rw [Run.always, run], kept⟩

/-- What breaks in a frame breaks around it, where the frame may not be left in addition. -/
theorem Run.Breaks.inFrame (h : x.Breaks e t) (entered : s.push = .ok t) (pos : Option Position) :
    (Run.inFrame pos x).Breaks e s := by
  obtain ⟨e', u, run, kept⟩ := h
  have left : Run.inFrame pos x s = (do Run.leave; throw e' : Run α) u := by
    rw [Run.inFrame, entered]
    dsimp only
    rw [run]
  cases popped : u.pop? with
  | some v =>
    have leave : Run.leave u = .ok () v := by rw [Run.leave, popped]
    exact ⟨e', v, left.trans (Run.bind_of_ok leave), kept⟩
  | none =>
    have leave : Run.leave u = .error (.runtime ⟨.other State.popRefused, none⟩) u := by rw [Run.leave, popped]
    exact ⟨_, u, left.trans (Run.bind_of_error leave), .inr ⟨none, rfl⟩⟩

end Rules

/-! ## Tasks -/

/-- What the task does breaks. -/
def Task.Breaks (host : Host) (e : Error) : Task → Prop
  | ⟨0, _, _⟩ => False
  | ⟨n + 1, .evaluate _ tree, s⟩ => (eval host (innerAt host n) tree).Breaks e s
  | ⟨n + 1, .call fn args d, s⟩ => (callFunction host (innerAt host n) fn args (some d.pos)).Breaks e s
  | ⟨n + 1, .whole c, s⟩ => (runBody (innerAt host n) c.rest c.pos false).Breaks e s
  | ⟨n + 1, .block collect body, s⟩ => (runBlock (innerAt host n) collect body).Breaks e s
  | ⟨n + 1, .branches collect _ bs, s⟩ => (runBranches host (innerAt host n) collect bs).Breaks e s
  | ⟨n + 1, .statement collect c, s⟩ =>
    (Run.locate (some c.pos) (runStatement host (innerAt host n) collect c)).Breaks e s
  | ⟨n + 1, .initializer h, s⟩ => (bindHoist host (innerAt host n) h).Breaks e s
  | ⟨n + 1, .statements collect c, s⟩ => (runStatements host (innerAt host n) collect c).Breaks e s
  | ⟨n + 1, .look, s⟩ => (checkWatches host (innerAt host n)).Breaks e s
  | ⟨n + 1, .fire i w, s⟩ => (fireWatch host (innerAt host n) i w).Breaks e s
  | ⟨n + 1, .input o tree, s⟩ => (Run.locate (some o.cursor.pos) (eval host (innerAt host n) tree)).Breaks e s

section Tasks

variable {host : Host} {n : Nat} {e : Error} {p : Position} {s t u : State}

/-- What the statements that run in a frame do is what their task does. -/
theorem breaks_statements {collect : Bool} {c : Cursor} (h : Task.Breaks host e ⟨n, .statements collect c, s⟩) :
    ((innerAt host n).statements collect c).Breaks e s := by
  cases n with
  | zero => exact h.elim
  | succ n => exact h

theorem breaks_expression {o : Origin} {tree : Expr} (h : Task.Breaks host e ⟨n, .evaluate o tree, s⟩) :
    ((innerAt host n).expression tree).Breaks e s := by
  cases n with
  | zero => exact h.elim
  | succ n => exact h

/-! ### Trees -/

section Trees

variable {inner : Inner} {tree : Expr}

theorem breaks_evalAll {before after : List Expr} {vs : List Value} (first : evalAll host inner before s = .ok vs t)
    (h : (eval host inner tree).Breaks e t) : (evalAll host inner (before ++ tree :: after)).Breaks e s := by
  induction before generalizing s vs with
  | nil =>
    rw [evalAll] at first
    cases first
    rw [List.nil_append, evalAll]
    exact h.bind
  | cons l before ih =>
    rw [evalAll] at first
    obtain ⟨v, u, value, first⟩ := Run.bind_eq_ok.1 first
    obtain ⟨vs', w, rest, first⟩ := Run.bind_eq_ok.1 first
    cases first
    rw [List.cons_append, evalAll]
    exact breaks_after value (ih rest).bind

theorem breaks_evalBase {b : Base} {before after : List Expr} {vs : List Value}
    (operands : b.operands = before ++ tree :: after) (first : evalAll host inner before s = .ok vs t)
    (h : (eval host inner tree).Breaks e t) : (evalBase host inner b).Breaks e s := by
  have values : (evalAll host inner b.operands).Breaks e s := operands ▸ breaks_evalAll first h
  cases b with
  | literal | name | function =>
    change [] = before ++ tree :: after at operands
    cases before <;> cases operands
  | call | object | array =>
    rw [evalBase]
    exact values.bind

/-- The accessors behind one that is read go on from its property. -/
theorem evalAccessors_of_read {acc : Accessor} {v w : Value} {key : String}
    (named : evalKey host inner acc s = .ok key t) (read : Run.ofFault (t.heap.readProperty v key) t = .ok w u)
    (pos : Position) (accs : List Accessor) :
    evalAccessors host inner pos v (acc :: accs) s = evalAccessors host inner pos w accs u := by
  have located : Run.locate (some pos) (Run.ofFault (t.heap.readProperty v key)) t = .ok w u := by
    rw [Run.locate, read]
  rw [evalAccessors, Run.bind_of_ok named, Run.get_bind, Run.bind_of_ok located]

theorem breaks_evalAccessors {pos : Position} {before rest : List Accessor} {v w : Value}
    (first : evalAccessors host inner pos v before s = .ok w t)
    (h : (evalAccessors host inner pos w rest).Breaks e t) :
    (evalAccessors host inner pos v (before ++ rest)).Breaks e s := by
  induction before generalizing s v with
  | nil =>
    rw [evalAccessors] at first
    cases first
    exact h
  | cons acc before ih =>
    rw [evalAccessors] at first
    obtain ⟨key, u, named, first⟩ := Run.bind_eq_ok.1 first
    rw [Run.get_bind] at first
    obtain ⟨v', u', read, first⟩ := Run.bind_eq_ok.1 first
    rw [List.cons_append]
    exact Run.Breaks.congr (evalAccessors_of_read named (Run.locate_eq_ok read) pos _) (ih first)

/-- An atom goes on with its other accessors behind what the first of them have led to. -/
theorem breaks_atom {b : Base} {pos : Position} {before rest : List Accessor} {v : Value}
    (first : eval host inner (.atom b before pos) s = .ok v t)
    (h : (evalAccessors host inner pos v rest).Breaks e t) :
    (eval host inner (.atom b (before ++ rest) pos)).Breaks e s := by
  rw [eval] at first
  obtain ⟨w, u, based, first⟩ := Run.bind_eq_ok.1 first
  rw [eval]
  exact breaks_after based (breaks_evalAccessors first h)

theorem breaks_index {pos : Position} {after : List Accessor} {v : Value} (h : (eval host inner tree).Breaks e s) :
    (evalAccessors host inner pos v (.index tree :: after)).Breaks e s := by
  rw [evalAccessors, evalKey]
  exact h.bind.bind

/-- The accessors in front of the last are followed, or the last one is named, and either breaks. -/
theorem breaks_container {pos : Position} {acc : Accessor} {accs before after : List Accessor} {v w : Value}
    (accessors : acc :: accs = before ++ .index tree :: after)
    (first : evalAccessors host inner pos v before s = .ok w t) (h : (eval host inner tree).Breaks e t)
    {α : Type} {g : Value × Accessor → Run α}
    (names : ∀ r u, (evalKey host inner r.2).Breaks e u → (g r).Breaks e u) :
    (container host inner v acc accs >>= g).Breaks e s := by
  induction accs generalizing v acc before s with
  | nil =>
    cases before with
    | nil =>
      cases first
      cases accessors
      refine breaks_after rfl (names _ _ ?_)
      rw [evalKey]
      exact h.bind
    | cons acc' before => cases before <;> cases accessors
  | cons next more ih =>
    cases before with
    | nil =>
      cases first
      cases accessors
      rw [container, evalKey]
      exact h.bind.bind.bind
    | cons acc' before =>
      rw [List.cons_append, List.cons.injEq] at accessors
      obtain ⟨rfl, accessors⟩ := accessors
      rw [evalAccessors] at first
      obtain ⟨key, u, named, first⟩ := Run.bind_eq_ok.1 first
      rw [Run.get_bind] at first
      obtain ⟨v', u', read, first⟩ := Run.bind_eq_ok.1 first
      have followed : container host inner v acc (next :: more) s = container host inner v' next more u' := by
        rw [container, Run.bind_of_ok named, Run.get_bind, Run.bind_of_ok (Run.locate_eq_ok read)]
      exact breaks_bind_congr followed (ih accessors first)

end Trees

/-! ### Functions -/

section Functions

variable {inner : Inner} {fn : FunctionRef} {args : List Value}

theorem callFunction_of_arity (differs : args.length ≠ fn.code.arity) (place : Option Position) :
    callFunction host inner fn args place s =
      .error (.runtime ⟨.argumentCount fn.code.name fn.code.arity args.length, place⟩) s := by
  unfold callFunction
  dsimp only
  rw [if_pos differs]
  rfl

theorem callFunction_of_native {slot arity : Nat} (same : args.length = fn.code.arity)
    (body : fn.code.body = .native slot arity) (place : Option Position) :
    callFunction host inner fn args place s =
      host.functions[slot]?.elim (pure .undefined) (fun f => Run.locate place (f.handler ⟨args, place⟩))
        (fn.code.handing args s) := by
  unfold callFunction
  dsimp only
  rw [if_neg (fun differs => differs same), body]
  dsimp only
  cases host.functions[slot]? with
  | none => rfl
  | some f => rfl

theorem callFunction_of_script {text : Text} {pos : Position} {block : Bool} (same : args.length = fn.code.arity)
    (body : fn.code.body = .script text pos block) (place : Option Position) :
    callFunction host inner fn args place s =
      Run.inFrame place (do modify (bindParams fn.code.params args); runBody inner text pos block)
        (fn.code.announced s) := by
  unfold callFunction
  dsimp only
  rw [if_neg (fun differs => differs same), body]
  rfl

theorem breaks_callFunction {text : Text} {pos : Position} {block : Bool}
    (body : fn.code.body = .script text pos block) (same : args.length = fn.code.arity)
    (entered : fn.code.entry args s = .ok t) (h : (runBody inner text pos block).Breaks e t)
    (place : Option Position) : (callFunction host inner fn args place).Breaks e s := by
  obtain ⟨u, pushed, rfl⟩ := exists_of_map_ok entered
  refine Run.Breaks.congr (callFunction_of_script same body place) ?_
  exact Run.Breaks.inFrame (.modify_bind h) pushed place

end Functions

theorem breaks_runBlock {inner : Inner} {collect : Bool} {body : Cursor} (entered : s.entry = .ok t)
    (h : (inner.statements collect body).Breaks e t) : (runBlock inner collect body).Breaks e s := by
  obtain ⟨u, pushed, rfl⟩ := exists_of_map_ok entered
  exact Run.Breaks.inFrame (.get_bind (.modify_bind h)) pushed (some body.pos)

/-! ### Statements -/

section Statements

variable {inner : Inner} {collect : Bool} {c d : Cursor} {tree : Expr}

theorem breaks_performed {stmt : Statement}
    (read : statement ⟨(s.onLine c).names, host.endCloses⟩ c = .ok (stmt, d))
    (h : (perform host inner collect c.pos.line stmt).Breaks e (s.onLine c)) :
    (runStatement host inner collect c).Breaks e s :=
  Run.Breaks.congr (runStatement_of_ok read) h.bind

theorem breaks_value {stmt : Statement} (line : Int) (value : stmt.value? = some tree)
    (h : (eval host inner tree).Breaks e s) : (perform host inner collect line stmt).Breaks e s := by
  cases stmt with
  | declaration header tree' debug =>
    unfold Statement.value? at value
    dsimp only at value
    split at value
    · cases value
    · next ahead =>
      cases value
      rw [perform, runDeclaration, if_neg ahead]
      exact h.bind.bind
  | assignment a debug =>
    obtain ⟨name, accs, mode, rhs⟩ := a
    cases value
    exact h.bind.bind
  | giveBack rhs debug =>
    cases value
    exact h.bind
  | call tree' debug | expression tree' debug =>
    cases value
    exact h.bind
  | block | conditional | watch | function => cases value

theorem breaks_assignProperty {name : String} {acc : Accessor} {accs before after : List Accessor} {mode : AssignMode}
    {rhs w : Value} {v : Variable} {pos : Position} (found : s.lookupVariable name = some v)
    (editable : v.mutability.editable = true) (accessors : acc :: accs = before ++ .index tree :: after)
    (first : evalAccessors host inner pos v.value before s = .ok w t) (h : (eval host inner tree).Breaks e t) :
    (assignProperty host inner name acc accs mode rhs).Breaks e s := by
  unfold assignProperty
  refine .get_bind ?_
  rw [found]
  dsimp only
  rw [editable]
  exact breaks_container accessors first h fun r u named => named.bind

theorem breaks_bindHoists {line : Int} {before after earlier : List Hoist} {h : Hoist} (due : h.Due line)
    (first : bindHoists host inner line before s = .ok earlier t) (broken : (bindHoist host inner h).Breaks e t) :
    (bindHoists host inner line (before ++ h :: after)).Breaks e s := by
  induction before generalizing s earlier with
  | nil =>
    cases first
    obtain ⟨unbound, from_, ahead⟩ := due
    rw [List.nil_append, bindHoists, unbound, decide_eq_false (by omega), decide_eq_false (by omega)]
    exact broken.bind
  | cons h' before ih =>
    rw [bindHoists] at first
    rw [List.cons_append, bindHoists]
    split at first
    · next waits =>
      obtain ⟨rest, u, others, first⟩ := Run.bind_eq_ok.1 first
      cases first
      rw [if_pos waits]
      exact (ih others).bind
    · next due' =>
      obtain ⟨_, u, bound, first⟩ := Run.bind_eq_ok.1 first
      obtain ⟨rest, v, others, first⟩ := Run.bind_eq_ok.1 first
      cases first
      rw [if_neg due']
      exact breaks_after bound (ih others).bind

/-- Statements that come to the one under the cursor do what is left of the loop. -/
theorem Arrives.breaks {p : Stage} (arrives : Arrives host inner collect c s p d)
    (h : ∀ fuel, (do
      let hs ← bindDue host inner p.waiting d
      let (flow, f) ← Run.locate (some d.pos) (runStatement host inner collect d)
      collectValue collect flow
      match flow with
      | .returned v => pure (some v)
      | _ =>
        checkWatches host inner
        statementLoop host inner collect fuel hs f : Run (Option Value)).Breaks e p.state) :
    (runStatements host inner collect c).Breaks e s := by
  obtain ⟨⟨turns, reached⟩, rfl, more⟩ := arrives
  obtain ⟨fuel, -, goes⟩ := runStatements_of_turns reached
  refine Run.Breaks.congr goes ?_
  rw [statementLoop]
  dsimp only
  rw [if_neg (Bool.not_eq_true _ ▸ more)]
  exact h fuel

end Statements

/-! ### Watches -/

theorem breaks_checkWatchesFrom {inner : Inner} {i count j : Nat} {w : Watch} {v : State}
    (first : checkWatchesFrom host inner i count v = .ok () s) (attached : s.watches[i + count]? = some w)
    (idle : w.firing = false) (changed : differ (s.valuesOf w.deps) w.snapshot = true)
    (h : (fireWatch host inner (i + count) w).Breaks e (s.noting (i + count) w)) :
    (checkWatchesFrom host inner i (count + (j + 1))).Breaks e v := by
  refine Run.Breaks.congr (checkWatchesFrom_add first (j + 1)) ?_
  rw [checkWatchesFrom]
  refine Run.Breaks.bind ?_
  unfold checkWatch
  refine .get_bind ?_
  rw [attached]
  dsimp only
  rw [idle, changed]
  exact .modify_bind h

theorem breaks_checkWatches {inner : Inner} {i : Nat} {w : Watch} (among : i < s.watches.length)
    (fires : Fires host inner s i w t) (h : (fireWatch host inner i w).Breaks e (t.noting i w)) :
    (checkWatches host inner).Breaks e s := by
  obtain ⟨first, attached, idle, changed⟩ := fires
  obtain ⟨j, count⟩ := Nat.exists_eq_add_of_lt among
  refine .get_bind ?_
  rw [count, Nat.add_assoc]
  exact breaks_checkWatchesFrom first ((Nat.zero_add i).symm ▸ attached) idle changed ((Nat.zero_add i).symm ▸ h)

end Tasks

/-! ## Steps -/

variable {host : Host} {τ τ' : Task} {e : Error} {p : Position} {d : Cursor}

/-- A task that comes to one that fails with a place fails with the same, unless a frame cannot be left. -/
theorem Starts.breaks (h : Starts host τ τ') (placed : e.pos? = some p) (broken : τ'.Breaks host e) :
    τ.Breaks host e := by
  cases h with
  | @unary n o op tree s =>
    change (eval host (innerAt host n) (.unary op tree)).Breaks e s
    rw [eval]
    exact Run.Breaks.bind broken
  | @left n o op l r s =>
    change (eval host (innerAt host n) (.binary op l r)).Breaks e s
    rw [eval]
    exact Run.Breaks.bind broken
  | @right n o op l r s t a first and or =>
    change (eval host (innerAt host n) (.binary op l r)).Breaks e s
    rw [eval]
    refine breaks_after first ?_
    split
    · next short => cases (and rfl).symm.trans short
    · next short => cases (or rfl).symm.trans short
    · exact Run.Breaks.bind broken
  | @operand n o b accs pos before after tree vs s t operands first =>
    change (eval host (innerAt host n) (.atom b accs pos)).Breaks e s
    rw [eval]
    exact ((breaks_evalBase operands first broken).locate placed _).bind
  | index first => exact breaks_atom first (breaks_index broken)
  | @call n o name fn args accs d vs s t stands first =>
    change (eval host (innerAt host n) (.atom (.call name fn args d.pos) accs d.pos)).Breaks e s
    rw [eval, evalBase]
    refine Run.Breaks.bind (Run.Breaks.locate placed ?_ _)
    exact breaks_after first broken
  | entry body arity entered =>
    exact breaks_callFunction body arity entered (breaks_statements broken).bind _
  | whole body arity entered => exact breaks_callFunction body arity entered broken _
  | @read n c tree s read =>
    have given : Run.read (fun names => fullExpression names c) s = .ok tree s := by rw [Run.read, read]
    exact breaks_after given (breaks_expression broken)
  | block entered => exact breaks_runBlock entered (breaks_statements broken)
  | @guard n collect origin b bs g s guarded =>
    change (runBranches host (innerAt host n) collect (b :: bs)).Breaks e s
    rw [runBranches, guarded]
    exact Run.Breaks.bind broken
  | @taken n collect origin b bs g v s t guarded first holds =>
    change (runBranches host (innerAt host n) collect (b :: bs)).Breaks e s
    rw [runBranches, guarded]
    refine breaks_after first ?_
    rw [if_pos holds]
    exact broken
  | @passed n collect origin b bs g v s t guarded first fails =>
    change (runBranches host (innerAt host n) collect (b :: bs)).Breaks e s
    rw [runBranches, guarded]
    refine breaks_after first ?_
    rw [fails]
    exact broken
  | @otherwise n collect origin b bs s unguarded =>
    change (runBranches host (innerAt host n) collect (b :: bs)).Breaks e s
    rw [runBranches, unguarded]
    exact broken
  | value read value => exact (breaks_performed read (breaks_value _ value broken)).locate placed _
  | @accessor n collect debug c d a before after tree rhs w v s t u read right found editable accessors first =>
    refine Run.Breaks.locate placed (breaks_performed read (Run.Breaks.bind ?_)) _
    obtain ⟨acc, accs, path⟩ : ∃ acc accs, a.accessors = acc :: accs := by
      rw [accessors]
      cases before with
      | nil => exact ⟨_, _, rfl⟩
      | cons acc before => exact ⟨_, _, rfl⟩
    rw [runAssignment_of_cons path]
    exact breaks_after right (breaks_assignProperty found editable (path ▸ accessors) first broken)
  | inner read => exact (breaks_performed read (Run.Breaks.bind broken)).locate placed _
  | conditional read => exact (breaks_performed read (Run.Breaks.bind broken)).locate placed _
  | statement arrives bound => exact arrives.breaks fun fuel => breaks_after bound (Run.Breaks.bind broken)
  | @initializer n collect c d p' before after earlier h s t arrives waiting due first =>
    refine arrives.breaks fun fuel => Run.Breaks.bind ?_
    rw [waiting, bindDue_of_ne_nil (by simp)]
    exact .modify_bind ((breaks_bindHoists due first broken).locate placed _)
  | @look n collect c d d' p' waiting flow s t u v arrives bound ran stays collected =>
    have located : Run.locate (some d.pos) (runStatement host (innerAt host n) collect d) t = .ok (flow, d') u := by
      rw [Run.locate, ran]
    refine arrives.breaks fun fuel => breaks_after bound (breaks_after located (breaks_after collected ?_))
    cases flow with
    | returned w => exact absurd rfl (stays w)
    | next | produced w => exact Run.Breaks.bind broken
  | @initial n h tree d s read =>
    have given : Run.read (fun names => expression names Terminator.never h.initializer) s = .ok (tree, d) s := by
      rw [Run.read, read]
    exact breaks_after given (Run.Breaks.locate placed broken _).bind
  | fire among fires => exact breaks_checkWatches among fires broken
  | reread guards => exact .modify_bind (.always (.modify_bind (breaks_after guards (Run.Breaks.bind broken))))
  | input => exact Run.Breaks.locate placed broken _

/-! ## Where failures begin -/

theorem Run.FailsAt.located {α : Type} {x : Run α} {pos : Position} {s : State} (h : x.FailsAt pos s e) :
    (Run.locate (some pos) x).Breaks e s := by
  obtain ⟨e', t, run, -, rfl⟩ := h.failed
  exact breaks_of_error (t := t) (by rw [Run.locate, run])

theorem Unread.breaks {o : Origin} (h : Unread host τ o e) (placed : e.pos? = some p) :
    τ.Breaks host e.settled := by
  cases h with
  | whole failed => exact Run.Breaks.bind (breaks_of_error (by rw [Run.read, failed]))
  | statement failed =>
    have place : e.settled.pos? = some p := (e.pos?_settled).trans placed
    exact (breaks_of_error (runStatement_of_error failed)).locate place _
  | initializer failed => exact Run.Breaks.bind (breaks_of_error (by rw [Run.read, failed]))
  | guard branch guarded failed reread =>
    exact .modify_bind (.always (.modify_bind (Run.Breaks.bind (breaks_of_error reread))))

/-- A failure that begins with a task has the place of what fails. -/
theorem Raises.place (h : Raises host τ e d) : e.pos? = some d.pos := by
  cases h with
  | base stands fails | statement fails | initializer read fails | input fails => exact fails.place
  | property | arity | frame | block => rfl
  | native same body known failed place => exact place
  | unread unread halts => exact (Error.pos?_settled _).trans halts.place

/-- A failure that begins with a task is what the task fails with. -/
theorem Raises.breaks (h : Raises host τ e d) : τ.Breaks host e := by
  cases h with
  | @base n o b accs d s e stands fails =>
    change (eval host (innerAt host n) (.atom b accs d.pos)).Breaks e s
    rw [eval]
    exact fails.located.bind
  | @property n o b before after acc d v key s t u f stands first named fault =>
    refine breaks_atom first ?_
    rw [evalAccessors]
    refine breaks_after named (.get_bind (Run.Breaks.bind (breaks_of_error (t := u) ?_)))
    rw [fault]
    rfl
  | arity differs => exact breaks_of_error (callFunction_of_arity differs _)
  | @native n slot arity fn args d f s t e same body known failed place =>
    refine breaks_of_error (t := t) ((callFunction_of_native same body _).trans ?_)
    rw [known, Option.elim_some, Run.locate, failed]
  | frame same body refused =>
    refine Run.Breaks.congr (callFunction_of_script same body _) ?_
    exact breaks_of_error (inFrame_of_refused (error_of_map_error refused) _ _)
  | block refused => exact breaks_of_error (inFrame_of_refused (error_of_map_error refused) _ _)
  | statement fails => exact fails.located
  | @initializer n h tree d s e read fails =>
    have given : Run.read (fun names => expression names Terminator.never h.initializer) s = .ok (tree, d) s := by
      rw [Run.read, read]
    exact breaks_after given fails.located.bind
  | input fails => exact fails.located
  | unread unread halts => exact unread.breaks halts.place

/-! ## Runs -/

theorem breaks_of_starts (h : Relation.ReflTransGen (Starts host) τ τ') (placed : e.pos? = some p)
    (broken : τ'.Breaks host e) : τ.Breaks host e := by
  induction h with
  | refl => exact broken
  | tail _ step ih => exact ih (step.breaks placed broken)

section Runs

variable {c : Cursor} {o : Origin} {tree : Expr} {s : State}

theorem breaks_runSource (h : Task.Breaks host e ⟨s.room + 1, .statements true c, s⟩) :
    (runSource host c).Breaks e s :=
  Run.Breaks.congr (x := runStatements host (innerAt host s.room) true c) rfl h

theorem breaks_input (h : Task.Breaks host e ⟨s.room + 1, .input o tree, s⟩) :
    (Run.locate (some o.cursor.pos) (runExpression host tree)).Breaks e s :=
  Run.Breaks.congr (x := Run.locate (some o.cursor.pos) (eval host (innerAt host s.room) tree)) rfl h

theorem breaks_runWatches (h : Task.Breaks host e ⟨s.room + 1, .look, s⟩) : (runWatches host).Breaks e s :=
  Run.Breaks.congr (x := checkWatches host (innerAt host s.room)) rfl h

end Runs

end Gapscript
