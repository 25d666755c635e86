import Gapscript.Proofs.Run.Blame

/-!
# Failures begin over what was typed

One pass over the interpreter: whatever runs in a state in which everything comes from what was typed
leaves such a state behind, and a failure of it that has a place begins with a task over something typed, to which
the run has come. Operators fail without a place, and functions of the host at the place of their call; the
atom, the statement or the initializer around them gives the failure its place, and stands there. Nested frames go
by the room left for them (`bodies_innerAt`).
-/

namespace Gapscript

open Cursor Reading

namespace Ledger

/-- The tree was read from a piece of what was typed, and its atoms stand there. -/
structure Tree (k : Ledger) (o : Origin) (e : Expr) : Prop where
  sourced : e.Sourced k.source
  placed : e.Placed o
  piece : k.Piece o.cursor

/-- The body was typed, and the guard was read from what was typed. -/
structure Ready (k : Ledger) (origin : Guard → Origin) (b : Branch) : Prop where
  body : k.Piece b.body
  guard : ∀ g, b.guard = some g → k.Tree (origin g) g.tree

/-- A body gave nothing back, or something from the source. -/
def Returned (k : Ledger) (r : Option Value) : Prop := ∀ v, r = some v → k.source.Holds v

/-- The flow returns nothing, or something from the source. -/
def Carried (k : Ledger) : Flow → Prop
  | .returned v => k.source.Holds v
  | _ => True

/-- A function of the host keeps to the source and fails at the place of its call or without one. -/
def Native (k : Ledger) (f : HostFunction) : Prop :=
  ∀ {call s}, k.Kept s → (∀ v ∈ call.args, k.source.Holds v) →
    k.Keeps (fun e => e.pos? = none ∨ e.pos? = call.pos) s (f.handler call) k.source.Holds

/-- What runs in the frames that are entered, with room for `n` more, fails over what was typed, and the
functions of the host keep to the source. -/
structure Bodies (k : Ledger) (host : Host) (n : Nat) : Prop where
  native : ∀ f ∈ host.functions, k.Native f
  statements : ∀ {s c}, k.Kept s → k.Piece c → ∀ collect,
    k.Keeps (k.Places host ⟨n, .statements collect c, s⟩) s ((innerAt host n).statements collect c) k.Returned
  expression : ∀ {s o e}, k.Kept s → k.Tree o e →
    k.Keeps (k.Places host ⟨n, .evaluate o e, s⟩) s ((innerAt host n).expression e) k.source.Holds

variable {k : Ledger} {host : Host} {n : Nat} {s : State}

theorem returned_none : k.Returned none := fun _ h => nomatch h

theorem returned_some {v : Value} (hv : k.source.Holds v) : k.Returned (some v) := by
  rintro _ ⟨⟩
  exact hv

theorem carried_ofResult {r : Option Value} (h : k.Returned r) : k.Carried (.ofResult r) := by
  cases r with
  | none => trivial
  | some v => exact h v rfl

/-! ## Readings -/

theorem keeps_fullExpression {τ : Task} (hs : k.Kept s) {c : Cursor} (piece : k.Piece c)
    (unread : ∀ {e}, (fullExpression s.names c).outcome = .error e → Unread host τ ⟨s.names, c⟩ e) :
    k.Keeps (k.Places host τ) s (Run.read fun names => fullExpression names c) (k.Tree ⟨s.names, c⟩) := by
  have given := (twins_fullExpression (accord_names hs) piece.covers).gives
  refine (keeps_read hs piece given (concludes_fullExpression ⟨s.names, c⟩) unread).placed.mono ?_
  exact fun e ⟨sourced, placed⟩ => ⟨sourced, placed, piece⟩

theorem run_read_eq_ok {α : Type} {p : Names → Reading α} {a : α} {t : State} (run : Run.read p s = .ok a t) :
    (p s.names).outcome = .ok a ∧ s = t := by
  unfold Run.read at run
  split at run
  · next read =>
    cases run
    exact ⟨read, rfl⟩
  · cases run

/-! ## Functions -/

section Functions

variable (bodies : k.Bodies host n)

include bodies

theorem keeps_whole (hs : k.Kept s) {c : Cursor} (piece : k.Piece c) :
    k.Keeps (k.Places host ⟨n + 1, .whole c, s⟩) s (runBody (innerAt host n) c.rest c.pos false) k.source.Holds := by
  refine (keeps_fullExpression hs piece .whole).bind fun e t run tree ht => ?_
  obtain ⟨read, rfl⟩ := run_read_eq_ok run
  exact (bodies.expression ht tree).starts (.read read)

theorem keeps_callFunction (hs : k.Kept s) {fn : FunctionRef} (hfn : k.source.Holds (.function fn))
    {args : List Value} (hargs : ∀ v ∈ args, k.source.Holds v) {d : Cursor} (piece : k.Piece d) :
    k.Keeps (k.Places host ⟨n + 1, .call fn args d, s⟩) s (callFunction host (innerAt host n) fn args (some d.pos))
      k.source.Holds := by
  change k.Callable fn.code at hfn
  by_cases same : args.length = fn.code.arity
  · cases body : fn.code.body with
    | native slot arity =>
      refine Keeps.of_eq (callFunction_of_native same body _) ?_
      have hs : k.Kept (fn.code.handing args s) := hs.congr rfl rfl rfl
      cases known : host.functions[slot]? with
      | none => exact keeps_pure hs trivial
      | some f =>
        rw [Option.elim_some]
        refine (bodies.native f (Array.mem_of_getElem? known) hs hargs).relocate fun {e t} failed placed p place => ?_
        have here : (e.withPosition (some d.pos)).pos? = some d.pos := by
          obtain unplaced | here := placed
          · exact Error.pos?_withPosition unplaced place
          · rwa [Error.withPosition_of_pos? here]
        exact places_of_raises (.native same body known failed here) piece p place
    | script text pos block =>
      refine Keeps.of_eq (callFunction_of_script same body _) ?_
      have piece' := hfn text pos block body
      have announced : k.Kept (fn.code.announced s) := hs.congr rfl rfl rfl
      refine Keeps.inFrame announced (fun t pushed ht => Keeps.modify_bind ?_) fun {f} refused => ?_
      · have entered : fn.code.entry args s = .ok (bindParams fn.code.params args t) := by
          rw [Function.entry, pushed]
          rfl
        have bound : k.Kept (bindParams fn.code.params args t) := ht.bindParams _ hargs
        cases block with
        | false => exact (keeps_whole bodies bound piece').starts (.whole body same entered)
        | true =>
          refine ((bodies.statements bound piece' false).starts (.entry body same entered)).bind ?_
          intro r u _ hr hu
          cases r with
          | none => exact keeps_pure hu trivial
          | some v => exact keeps_pure hu (hr v rfl)
      · have refused' : fn.code.entry args s = .error f := by
          rw [Function.entry, refused]
          rfl
        exact places_of_raises (.frame same body refused') piece
  · exact keeps_of_error (callFunction_of_arity same _) hs (places_of_raises (.arity same) piece)

end Functions

/-! ## Expressions -/

/-- Evaluating the tree that was read from the origin fails over what was typed. -/
def Evaluates (k : Ledger) (host : Host) (n : Nat) (o : Origin) (e : Expr) : Prop :=
  ∀ {s}, k.Kept s → k.Tree o e →
    k.Keeps (k.Places host ⟨n + 1, .evaluate o e, s⟩) s (eval host (innerAt host n) e) k.source.Holds

section Expressions

variable (bodies : k.Bodies host n) {o : Origin}

theorem Tree.operands {b : Base} {accs : List Accessor} {pos : Position} (tree : k.Tree o (.atom b accs pos))
    {e : Expr} (operand : e ∈ b.operands) : k.Tree o e := by
  obtain ⟨⟨sourced, -⟩, ⟨-, placed, -⟩, piece⟩ := tree
  have all : Expr.AllSourced k.source b.operands ∧ Expr.AllPlaced o b.operands := by
    cases b with
    | call name fn args here => exact ⟨sourced.2, placed.2⟩
    | object keys values => exact ⟨sourced, placed⟩
    | array elements => exact ⟨sourced, placed⟩
    | literal | name | function => exact ⟨trivial, trivial⟩
  exact ⟨Expr.allSourced_iff.1 all.1 e operand, Expr.allPlaced_iff.1 all.2 e operand, piece⟩

theorem Tree.indices {b : Base} {accs : List Accessor} {pos : Position} (tree : k.Tree o (.atom b accs pos))
    {e : Expr} (index : .index e ∈ accs) : k.Tree o e :=
  ⟨Accessor.allSourced_iff.1 tree.sourced.2 e index, Accessor.allPlaced_iff.1 tree.placed.2.2 e index, tree.piece⟩

/-- Trees are evaluated from left to right. -/
theorem keeps_evalAll {τ : Task} {es : List Expr} (hs : k.Kept s)
    (each : ∀ {before e after vs t}, es = before ++ e :: after →
      evalAll host (innerAt host n) before s = .ok vs t → k.Kept t →
      k.Keeps (k.Places host τ) t (eval host (innerAt host n) e) k.source.Holds) :
    k.Keeps (k.Places host τ) s (evalAll host (innerAt host n) es) fun vs => ∀ v ∈ vs, k.source.Holds v := by
  induction es generalizing s with
  | nil =>
    rw [evalAll]
    exact keeps_pure hs (List.forall_mem_nil _)
  | cons e es ih =>
    rw [evalAll]
    have none : evalAll host (innerAt host n) [] s = .ok [] s := by rw [evalAll]; rfl
    refine (@each [] e es [] s rfl none hs).bind fun v t first hv ht => ?_
    have others : k.Keeps (k.Places host τ) t (evalAll host (innerAt host n) es)
        fun vs => ∀ v ∈ vs, k.source.Holds v := by
      refine ih ht fun {before e' after vs u} split run hu => ?_
      have whole : e :: es = (e :: before) ++ e' :: after := by rw [split, List.cons_append]
      have led : evalAll host (innerAt host n) (e :: before) s = .ok (v :: vs) u := by
        rw [evalAll, Run.bind_of_ok first, Run.bind_of_ok run]
        rfl
      exact each whole led hu
    exact others.bind fun vs u _ hvs hu => keeps_pure hu (List.forall_mem_cons.2 ⟨hv, hvs⟩)

theorem keeps_evalKey {τ : Task} (hs : k.Kept s) {acc : Accessor}
    (index : ∀ {e}, acc = .index e → k.Keeps (k.Places host τ) s (eval host (innerAt host n) e) k.source.Holds) :
    k.Keeps (k.Places host τ) s (evalKey host (innerAt host n) acc) fun _ => True := by
  cases acc with
  | dot name =>
    rw [evalKey]
    exact keeps_pure hs trivial
  | index e =>
    rw [evalKey]
    exact (index rfl).bind fun v t _ _ ht => Keeps.get_bind (keeps_pure ht trivial)

/-- Properties are read one after the other, each from what those in front of it have led to. -/
theorem keeps_evalAccessors {τ : Task} {pos : Position} {accs : List Accessor} {v : Value} (hs : k.Kept s)
    (hv : k.source.Holds v)
    (each : ∀ {before e after w t}, accs = before ++ .index e :: after →
      evalAccessors host (innerAt host n) pos v before s = .ok w t → k.Kept t →
      k.Keeps (k.Places host τ) t (eval host (innerAt host n) e) k.source.Holds)
    (fails : ∀ {before acc after w t key u f}, accs = before ++ acc :: after →
      evalAccessors host (innerAt host n) pos v before s = .ok w t →
      evalKey host (innerAt host n) acc t = .ok key u → u.heap.readProperty w key = .error f →
      k.Places host τ ((Error.ofFault f).withPosition (some pos))) :
    k.Keeps (k.Places host τ) s (evalAccessors host (innerAt host n) pos v accs) k.source.Holds := by
  induction accs generalizing v s with
  | nil =>
    rw [evalAccessors]
    exact keeps_pure hs hv
  | cons acc accs ih =>
    have none : evalAccessors host (innerAt host n) pos v [] s = .ok v s := by rw [evalAccessors]; rfl
    rw [evalAccessors]
    have first {e : Expr} (same : acc = .index e) := @each [] e accs v s (by rw [same]; rfl) none hs
    refine (keeps_evalKey hs first).bind fun key t run _ ht => Keeps.get_bind ?_
    have read : k.Keeps (k.Places host τ) t (Run.locate (some pos) (Run.ofFault (t.heap.readProperty v key)))
        k.source.Holds := by
      cases found : t.heap.readProperty v key with
      | ok w => exact keeps_of_ok rfl ht (ht.heap.readProperty holds_of_plain hv found)
      | error f => exact keeps_of_error rfl ht (@fails [] acc accs v s key t f rfl none run found)
    refine read.bind fun w u found hw hu => ?_
    have led (before : List Accessor) := evalAccessors_of_read run (Run.locate_eq_ok found) pos before
    have whole {before after : List Accessor} {acc' : Accessor} (split : accs = before ++ acc' :: after) :
        acc :: accs = (acc :: before) ++ acc' :: after := by rw [split, List.cons_append]
    refine ih hu hw (fun {before e after x y} split later => ?_) fun {before acc' after x y key' z f} split later => ?_
    · exact each (whole split) ((led before).trans later)
    · exact fails (whole split) ((led before).trans later)

include bodies

theorem evaluates_atom {b : Base} {accs : List Accessor} {pos : Position}
    (operands : ∀ e ∈ b.operands, k.Evaluates host n o e)
    (indices : ∀ e, .index e ∈ accs → k.Evaluates host n o e) : k.Evaluates host n o (.atom b accs pos) := by
  intro s hs tree
  obtain ⟨⟨d, stands, rfl⟩, placed, -⟩ := tree.placed
  have piece : k.Piece d := tree.piece.reaches stands.reached
  have sourced := tree.sourced.1
  have values : k.Keeps (k.Places host ⟨n + 1, .evaluate o (.atom b accs d.pos), s⟩) s
      (evalAll host (innerAt host n) b.operands) fun vs => ∀ v ∈ vs, k.source.Holds v := by
    refine keeps_evalAll hs fun {before e after vs t} split first ht => ?_
    have among : e ∈ b.operands := by rw [split]; simp
    exact (operands e among ht (tree.operands among)).starts (.operand split first)
  have based : k.Keeps (k.Places host ⟨n + 1, .evaluate o (.atom b accs d.pos), s⟩) s
      (evalBase host (innerAt host n) b) k.source.Holds := by
    cases b with
    | literal v implicit | name name v =>
      rw [evalBase]
      exact keeps_pure hs sourced
    | call name fn args here =>
      obtain ⟨rfl, -⟩ := placed
      rw [evalBase]
      refine values.bind fun vs t first hvs ht => ?_
      exact (keeps_callFunction bodies ht sourced.1 hvs piece).starts (.call stands first)
    | object keys trees =>
      rw [evalBase]
      refine values.bind fun vs t _ hvs ht => ?_
      have each : ∀ e ∈ keys.zip vs, k.source.Holds e.2 := fun e he => hvs e.2 (List.of_mem_zip he).2
      have made := ht.newObject ((Object.all_empty false).setAll each)
      exact keeps_modifyGet made.1 made.2
    | array elements =>
      rw [evalBase]
      refine values.bind fun vs t _ hvs ht => ?_
      have made := ht.newObject (o := Object.ofElements vs) ((Object.all_empty true).fill 0 hvs)
      exact keeps_modifyGet made.1 made.2
    | function fn =>
      rw [evalBase]
      exact keeps_modifyGet (hs.congr rfl rfl rfl) (callable_of_code sourced)
  rw [eval]
  refine (based.locate piece (.base stands)).bind fun v t start hv ht => ?_
  have led {before : List Accessor} {w : Value} {u : State}
      (later : evalAccessors host (innerAt host n) d.pos v before t = .ok w u) :
      eval host (innerAt host n) (.atom b before d.pos) s = .ok w u := by
    rw [eval, Run.bind_of_ok start]
    exact later
  refine keeps_evalAccessors ht hv (fun {before e after w u} split later hu => ?_)
    fun {before acc after w u key x f} split later named fault => ?_
  · subst split
    have among : .index e ∈ before ++ .index e :: after := by simp
    exact (indices e among hu (tree.indices among)).starts (.index (led later))
  · subst split
    exact places_of_raises (.property stands (led later) named fault) piece

end Expressions

mutual

theorem keeps_eval (bodies : k.Bodies host n) {o : Origin} (e : Expr) : k.Evaluates host n o e := by
  cases e with
  | atom b accs pos => exact evaluates_atom bodies (keeps_operands bodies b) (keeps_indices bodies accs)
  | unary op e =>
    intro s hs tree
    rw [eval]
    refine ((keeps_eval bodies e hs ⟨tree.sourced, tree.placed, tree.piece⟩).starts .unary).bind fun v t _ _ ht => ?_
    exact keeps_ofFault ht fun w hw => holds_of_plain (isReference_unary hw)
  | binary op l r =>
    intro s hs tree
    obtain ⟨⟨lSourced, rSourced⟩, ⟨lPlaced, rPlaced⟩, piece⟩ := tree
    rw [eval]
    refine ((keeps_eval bodies l hs ⟨lSourced, lPlaced, piece⟩).starts .left).bind fun a t first ha ht => ?_
    split
    · exact keeps_pure ht ha
    · exact keeps_pure ht ha
    · next and or =>
      refine ((keeps_eval bodies r ht ⟨rSourced, rPlaced, piece⟩).starts (.right first ?_ ?_)).bind
        fun b u _ hb hu => Keeps.get_bind ?_
      · exact fun same => Bool.eq_true_of_not_eq_false (and same)
      · exact fun same => Bool.eq_false_of_not_eq_true (or same)
      · exact keeps_ofFault hu fun v hv => holds_of_binary holds_of_plain hv ha hb

theorem keeps_operands (bodies : k.Bodies host n) {o : Origin} (b : Base) :
    ∀ e ∈ b.operands, k.Evaluates host n o e := by
  cases b with
  | call name fn args pos => exact keeps_each bodies args
  | object keys values => exact keeps_each bodies values
  | array elements => exact keeps_each bodies elements
  | literal | name | function => exact fun _ h => nomatch h

theorem keeps_each (bodies : k.Bodies host n) {o : Origin} (es : List Expr) : ∀ e ∈ es, k.Evaluates host n o e := by
  cases es with
  | nil => exact fun _ h => nomatch h
  | cons e es => exact List.forall_mem_cons.2 ⟨keeps_eval bodies e, keeps_each bodies es⟩

theorem keeps_indices (bodies : k.Bodies host n) {o : Origin} (accs : List Accessor) :
    ∀ e, .index e ∈ accs → k.Evaluates host n o e := by
  cases accs with
  | nil => exact fun _ h => nomatch h
  | cons acc accs =>
    intro e index
    rcases List.mem_cons.1 index with same | later
    · cases acc with
      | dot name => cases same
      | index e' =>
        cases same
        exact keeps_eval bodies e
    · exact keeps_indices bodies accs e later

end

section Statements

variable (bodies : k.Bodies host n)

include bodies

/-! ## Blocks, branches and watches -/

theorem keeps_runBlock (hs : k.Kept s) (collect : Bool) {body : Cursor} (piece : k.Piece body) :
    k.Keeps (k.Places host ⟨n + 1, .block collect body, s⟩) s (runBlock (innerAt host n) collect body)
      k.Returned := by
  refine Keeps.inFrame hs (fun t pushed ht => Keeps.get_bind ?_) fun {f} refused => ?_
  · have entered : s.entry = .ok (t.record
        { level := .trace, category := .scope, message := "entered scope depth " ++ toString t.depth }) := by
      rw [State.entry, pushed]
      rfl
    refine Keeps.modify_bind ((bodies.statements ?_ piece collect).starts (.block entered))
    exact ht.congr rfl rfl rfl
  · have refused' : s.entry = .error f := by
      rw [State.entry, refused]
      rfl
    exact places_of_raises (.block refused') piece

theorem keeps_runBranches (hs : k.Kept s) (collect : Bool) {origin : Guard → Origin} {bs : List Branch}
    (ready : ∀ b ∈ bs, k.Ready origin b) :
    k.Keeps (k.Places host ⟨n + 1, .branches collect origin bs, s⟩) s
      (runBranches host (innerAt host n) collect bs) k.Returned := by
  induction bs generalizing s with
  | nil => exact keeps_pure hs returned_none
  | cons b bs ih =>
    obtain ⟨first, rest⟩ := List.forall_mem_cons.1 ready
    rw [runBranches]
    cases guarded : b.guard with
    | none => exact (keeps_runBlock bodies hs collect first.body).starts (.otherwise guarded)
    | some g =>
      refine ((keeps_eval bodies g.tree hs (first.guard g guarded)).starts (.guard guarded)).bind
        fun v t ran _ ht => ?_
      split
      · next holds => exact (keeps_runBlock bodies ht collect first.body).starts (.taken guarded ran holds)
      · next fails => exact (ih ht rest).starts (.passed guarded ran (Bool.eq_false_of_not_eq_true fails))

omit bodies in
/-- The guards of a watch are read from its own text, again against the names of now. -/
theorem keeps_rereadWatch {τ : Task} (hs : k.Kept s) {i : Nat} {w : Watch} (typed : k.Watches w)
    (unread : ∀ {b g e}, b ∈ w.branches → b.guard = some g →
      (fullExpression s.names ⟨g.text, g.pos⟩).outcome = .error e → rereadWatch i w s = .error e.settled s →
      Unread host τ ⟨s.names, ⟨g.text, g.pos⟩⟩ e) :
    k.Keeps (k.Places host τ) s (rereadWatch i w)
      fun bs => ∀ b ∈ bs, k.Ready (fun g => ⟨s.names, ⟨g.text, g.pos⟩⟩) b := by
  have read := (twins_readGuards (accord_names hs) (fun b hb => (typed b hb).1)
    fun b hb g hg => ((typed b hb).2 g hg).covers).gives
  have ends := concludes_readGuards s.names (P := k.Piece) fun b hb => (typed b hb).2
  cases run : readGuards s.names w.branches w.deps with
  | error e deps =>
    obtain ⟨b, branch, g, guarded, failed, stops⟩ := ends.error run
    have whole : rereadWatch i w s = .error e.settled s := by rw [rereadWatch, run]
    have piece : k.Piece ⟨g.text, g.pos⟩ := (typed b branch).2 g guarded
    exact keeps_of_error whole hs (places_of_unread (unread branch guarded failed whole) stops piece)
  | ok bs deps =>
    have ready : ∀ b ∈ bs, k.Ready (fun g => ⟨s.names, ⟨g.text, g.pos⟩⟩) b := fun b hb => by
      obtain ⟨body, guard⟩ := read.of_run_ok run b hb
      refine ⟨body, fun g hg => ?_⟩
      obtain ⟨piece, placed⟩ := ends.ok run b hb g hg
      exact ⟨(guard g hg).1, placed, piece⟩
    have whole : ∃ t, rereadWatch i w s = .ok bs t ∧ k.Kept t := by
      rw [rereadWatch, run]
      dsimp only
      split
      · exact ⟨_, rfl, hs⟩
      · exact ⟨_, rfl, hs.modifyWatch i fun _ hw => hw⟩
    obtain ⟨t, whole, ht⟩ := whole
    exact keeps_of_ok whole ht ready

theorem keeps_fireWatch (hs : k.Kept s) (i : Nat) {w : Watch} (typed : k.Watches w) :
    k.Keeps (k.Places host ⟨n + 1, .fire i w, s⟩) s (fireWatch host (innerAt host n) i w) fun _ => True := by
  have marked : k.Kept (s.modifyWatch i fun w => { w with firing := true }) := hs.modifyWatch i fun _ hw => hw
  have triggered : k.Kept (s.triggered i w) := marked.congr rfl rfl rfl
  refine Keeps.modify_bind (Keeps.always (Keeps.modify_bind ?_) fun u hu => hu.modifyWatch i fun _ hw => hw)
  refine (keeps_rereadWatch triggered typed .guard).bind fun bs t reread ready ht => ?_
  refine ((keeps_runBranches bodies ht false ready).starts (.reread reread)).bind fun _ u _ _ hu => ?_
  exact keeps_pure hu trivial

theorem keeps_checkWatchesFrom {v : State} {i : Nat} (first : checkWatchesFrom host (innerAt host n) 0 i v = .ok () s)
    (hs : k.Kept s) {count : Nat} (among : i + count = v.watches.length) :
    k.Keeps (k.Places host ⟨n + 1, .look, v⟩) s (checkWatchesFrom host (innerAt host n) i count)
      fun _ => True := by
  induction count generalizing i s with
  | zero => exact keeps_pure hs trivial
  | succ count ih =>
    have one : k.Keeps (k.Places host ⟨n + 1, .look, v⟩) s (checkWatch host (innerAt host n) i) fun _ => True := by
      unfold checkWatch
      refine Keeps.get_bind ?_
      cases attached : s.watches[i]? with
      | none => exact keeps_pure hs trivial
      | some w =>
        dsimp only
        split
        · next due =>
          rw [Bool.and_eq_true, Bool.not_eq_true'] at due
          have typed := hs.watches w (List.mem_of_getElem? attached)
          have noted : k.Kept (s.noting i w) := hs.modifyWatch i fun _ hw => hw
          refine Keeps.modify_bind ((keeps_fireWatch bodies noted i typed).starts ?_)
          exact .fire (by omega) ⟨first, attached, due.1, due.2⟩
        · exact keeps_pure hs trivial
    refine one.bind fun _ t looked _ ht => ih ?_ ht (by omega)
    refine (checkWatchesFrom_add first 1).trans ?_
    rw [Nat.zero_add]
    exact Run.bind_of_ok looked

theorem keeps_checkWatches (hs : k.Kept s) :
    k.Keeps (k.Places host ⟨n + 1, .look, s⟩) s (checkWatches host (innerAt host n)) fun _ => True :=
  Keeps.get_bind (keeps_checkWatchesFrom bodies rfl hs (Nat.zero_add _))

/-! ## Assignments -/

omit bodies in
theorem keeps_assignName {τ : Task} (hs : k.Kept s) (name : String) (mode : AssignMode) {rhs : Value}
    (hrhs : k.source.Holds rhs) : k.Keeps (k.Places host τ) s (assignName name mode rhs) k.source.Holds := by
  unfold assignName
  refine Keeps.get_bind ?_
  cases hv : s.lookupVariable name with
  | none =>
    dsimp only
    split
    · refine (keeps_set (hs.declare name hrhs .varVar .forever)).bind fun _ t _ _ ht => ?_
      exact (keeps_debug ht _ _).bind fun _ u _ _ hu => keeps_pure hu hrhs
    · exact keeps_throw hs (places_of_unplaced rfl)
  | some v =>
    have hold := hs.lookupVariable hv
    refine (keeps_ofFault (Q := fun _ => True) hs fun _ _ => trivial).bind fun _ t _ _ ht => ?_
    refine (keeps_ofFault ht fun w hw => holds_of_combine holds_of_plain hw hold hrhs).bind fun w u _ hw hu => ?_
    refine (keeps_modify ?_).bind fun _ x _ _ hx => keeps_pure hx hw
    exact hu.assign name hw

omit bodies in
/-- Accessors are followed up to the last as they are where properties are read. -/
theorem container_eq_ok {inner : Inner} (pos : Position) {acc : Accessor} {accs : List Accessor} {v : Value}
    {r : Value × Accessor} {t : State} (run : container host inner v acc accs s = .ok r t) :
    ∃ before, acc :: accs = before ++ [r.2] ∧ evalAccessors host inner pos v before s = .ok r.1 t := by
  induction accs generalizing v acc s with
  | nil =>
    cases run
    exact ⟨[], rfl, by rw [evalAccessors]; rfl⟩
  | cons next more ih =>
    rw [container] at run
    obtain ⟨key, u, named, run⟩ := Run.bind_eq_ok.1 run
    rw [Run.get_bind] at run
    obtain ⟨w, x, read, run⟩ := Run.bind_eq_ok.1 run
    obtain ⟨before, split, led⟩ := ih run
    refine ⟨acc :: before, by rw [split, List.cons_append], ?_⟩
    exact (evalAccessors_of_read named read pos before).trans led

omit bodies in
theorem keeps_container {τ : Task} (pos : Position) {acc : Accessor} {accs : List Accessor} {v : Value} (hs : k.Kept s)
    (hv : k.source.Holds v)
    (each : ∀ {before e after w t}, acc :: accs = before ++ .index e :: after →
      evalAccessors host (innerAt host n) pos v before s = .ok w t → k.Kept t →
      k.Keeps (k.Places host τ) t (eval host (innerAt host n) e) k.source.Holds) :
    k.Keeps (k.Places host τ) s (container host (innerAt host n) v acc accs) fun r => k.source.Holds r.1 := by
  induction accs generalizing v acc s with
  | nil => exact keeps_pure hs hv
  | cons next more ih =>
    have none : evalAccessors host (innerAt host n) pos v [] s = .ok v s := by rw [evalAccessors]; rfl
    have first {e : Expr} (same : acc = .index e) := @each [] e (next :: more) v s (by rw [same]; rfl) none hs
    rw [container]
    refine (keeps_evalKey hs first).bind fun key t run _ ht => Keeps.get_bind ?_
    refine (keeps_ofFault ht fun w hw => ht.heap.readProperty holds_of_plain hv hw).bind fun w u read hw hu => ?_
    refine ih hu hw fun {before e after x y} split later => ?_
    have whole : acc :: next :: more = (acc :: before) ++ .index e :: after := by rw [split, List.cons_append]
    exact each whole ((evalAccessors_of_read run read pos before).trans later)

omit bodies in
theorem keeps_assignProperty {τ : Task} (pos : Position) (hs : k.Kept s) (name : String) {acc : Accessor}
    {accs : List Accessor} (mode : AssignMode) {rhs : Value} (hrhs : k.source.Holds rhs)
    (each : ∀ {v : Variable} {before e after w t}, s.lookupVariable name = some v → v.mutability.editable = true →
      acc :: accs = before ++ .index e :: after →
      evalAccessors host (innerAt host n) pos v.value before s = .ok w t → k.Kept t →
      k.Keeps (k.Places host τ) t (eval host (innerAt host n) e) k.source.Holds) :
    k.Keeps (k.Places host τ) s (assignProperty host (innerAt host n) name acc accs mode rhs) k.source.Holds := by
  unfold assignProperty
  refine Keeps.get_bind ?_
  cases found : s.lookupVariable name with
  | none => exact keeps_throw hs (places_of_unplaced rfl)
  | some v =>
    dsimp only
    split
    · exact keeps_throw_bind hs (places_ofFault _)
    · next editable =>
      rw [Bool.not_eq_true', Bool.not_eq_false] at editable
      refine (keeps_container pos hs (hs.lookupVariable found) (each found editable)).bind ?_
      rintro ⟨target, last⟩ t followed htarget ht
      obtain ⟨before, split, led⟩ := container_eq_ok pos followed
      have final {e : Expr} (same : last = .index e) := @each v before e [] target t found editable
        (by rw [split, ← same]) led ht
      refine (keeps_evalKey ht final).bind fun key u _ _ hu => ?_
      cases target with
      | object ref =>
        refine Keeps.get_bind ?_
        have old := hu.heap.lookup holds_of_plain htarget key
        have combined (w : Value) (hw : mode.combine u.heap (u.heap.lookup ref key) rhs = .ok w) :
            k.source.Holds w := holds_of_combine holds_of_plain hw old hrhs
        refine (keeps_ofFault hu combined).bind fun w x _ hw hx => ?_
        refine (keeps_modify ?_).bind fun _ y _ _ hy => keeps_pure hy hw
        exact hx.setProperty ref key hw
      | _ => exact keeps_throw hu (places_ofFault _)

theorem keeps_runAssignment {collect debug : Bool} {c d : Cursor} {a : Assignment} (hs : k.Kept (s.onLine c))
    (read : statement ⟨(s.onLine c).names, host.endCloses⟩ c = .ok (.assignment a debug, d)) (piece : k.Piece c)
    (sourced : (Statement.assignment a debug).Sourced k.source)
    (placed : (Statement.assignment a debug).Placed (s.origin c)) :
    k.Keeps (k.Places host ⟨n + 1, .statement collect c, s⟩) (s.onLine c) (runAssignment host (innerAt host n) a)
      k.source.Holds := by
  obtain ⟨-, accsSourced, valueSourced⟩ := sourced
  obtain ⟨accsPlaced, valuePlaced⟩ := placed
  have right : k.Keeps (k.Places host ⟨n + 1, .statement collect c, s⟩) (s.onLine c)
      (a.right host (innerAt host n)) k.source.Holds := by
    unfold Assignment.right
    cases value : a.value with
    | none => exact keeps_pure hs trivial
    | some e =>
      have tree : k.Tree (s.origin c) e := ⟨valueSourced e value, valuePlaced e value, piece⟩
      exact (keeps_eval bodies e hs tree).starts (.value read value)
  cases path : a.accessors with
  | nil =>
    rw [runAssignment_of_nil path]
    exact right.bind fun rhs t _ hrhs ht => keeps_assignName ht a.name a.mode hrhs
  | cons acc accs =>
    rw [runAssignment_of_cons path]
    refine right.bind fun rhs t evaluated hrhs ht => ?_
    refine keeps_assignProperty c.pos ht a.name a.mode hrhs
      fun {v before e after w u} found editable split led hu => ?_
    have index : .index e ∈ a.accessors := by rw [path, split]; simp
    have tree : k.Tree (s.origin c) e :=
      ⟨Accessor.allSourced_iff.1 accsSourced e index, Accessor.allPlaced_iff.1 accsPlaced e index, piece⟩
    exact (keeps_eval bodies e hu tree).starts (.accessor read evaluated found editable (path.trans split) led)

/-! ## Statements -/

omit bodies in
theorem keeps_reportValue {τ : Task} (hs : k.Kept s) (debug : Bool) (line : Int) (label : String) (v : Value) :
    k.Keeps (k.Places host τ) s (reportValue debug line label v) fun _ => True := by
  unfold reportValue
  split
  · exact Keeps.get_bind (keeps_log hs _ _ _)
  · exact keeps_pure hs trivial

omit bodies in
theorem keeps_runDeclaration {τ : Task} (hs : k.Kept s) (line : Int) (h : Header) {value : Expr} (debug : Bool)
    (initial : h.life.isHoisted = false →
      k.Keeps (k.Places host τ) s (eval host (innerAt host n) value) k.source.Holds) :
    k.Keeps (k.Places host τ) s (runDeclaration host (innerAt host n) line h value debug) fun _ => True := by
  unfold runDeclaration
  split
  · exact keeps_debug hs _ _
  · next now =>
    refine (initial (Bool.eq_false_of_not_eq_true now)).bind fun v t _ hv ht => ?_
    refine Keeps.modify_bind ?_
    have bound : k.Kept (t.declare h.name v h.mutability h.life) := ht.declare h.name hv h.mutability h.life
    refine (keeps_display bound v).bind fun text w _ _ hw => ?_
    exact (keeps_debug hw _ _).bind fun _ x _ _ hx => keeps_reportValue hx debug line h.name v

omit bodies in
theorem keeps_addWatch {τ : Task} (hs : k.Kept s) {o : Origin} (piece : k.Piece o.cursor) {bs : List Branch}
    (sourced : ∀ b ∈ bs, b.Sourced k.source) (placed : ∀ b ∈ bs, ∀ g, b.guard = some g → g.Placed o)
    (deps : List String) (line : Int) :
    k.Keeps (k.Places host τ) s (modify fun s => s.addWatch bs deps line : Run PUnit) fun _ => True := by
  refine keeps_modify (hs.addWatch fun _ b hb => ⟨(sourced b hb).1, fun g hg => ?_⟩)
  exact piece.includes (placed b hb g hg).2

omit bodies in
theorem keeps_define {τ : Task} (hs : k.Kept s) {fn : Function} (code : k.source.Code fn) :
    k.Keeps (k.Places host τ) s
      (modify fun s => (s.newFunction fn).2.define (s.newFunction fn).1 : Run PUnit) fun _ => True := by
  have made : k.Kept (s.newFunction fn).2 := hs.congr rfl rfl rfl
  have holds : k.source.Holds (.function (s.newFunction fn).1) := callable_of_code code
  exact keeps_modify (made.define holds)

omit bodies in
theorem keeps_returning {τ : Task} (hs : k.Kept s) (debug : Bool) (line : Int) {v : Value}
    (hv : k.source.Holds v) : k.Keeps (k.Places host τ) s (Contract.returning debug line v) k.Carried := by
  refine (keeps_display hs v).bind fun text u _ _ hu => ?_
  refine (keeps_debug hu _ _).bind fun _ w _ _ hw => ?_
  exact (keeps_reportValue hw debug line "return" v).bind fun _ x _ _ hx => keeps_pure hx hv

theorem keeps_perform (collect : Bool) {c d : Cursor} {stmt : Statement} (hs : k.Kept (s.onLine c))
    (read : statement ⟨(s.onLine c).names, host.endCloses⟩ c = .ok (stmt, d)) (piece : k.Piece c)
    (sourced : stmt.Sourced k.source) (placed : stmt.Placed (s.origin c)) (line : Int) :
    k.Keeps (k.Places host ⟨n + 1, .statement collect c, s⟩) (s.onLine c)
      (perform host (innerAt host n) collect line stmt) k.Carried := by
  have evaluated {e : Expr} (value : stmt.value? = some e) (sourced : e.Sourced k.source)
      (placed : e.Placed (s.origin c)) :
      k.Keeps (k.Places host ⟨n + 1, .statement collect c, s⟩) (s.onLine c) (eval host (innerAt host n) e)
        k.source.Holds :=
    (keeps_eval bodies e hs ⟨sourced, placed, piece⟩).starts (.value read value)
  cases stmt with
  | declaration h value debug =>
    refine (keeps_runDeclaration hs line h debug fun now => ?_).bind fun _ t _ _ ht => keeps_pure ht trivial
    exact evaluated (by rw [Statement.value?, now]; rfl) sourced.2 placed
  | assignment a debug =>
    refine (keeps_runAssignment bodies hs read piece sourced placed).bind fun v t _ _ ht => ?_
    exact (keeps_reportValue ht debug line a.name v).bind fun _ u _ _ hu => keeps_pure hu trivial
  | block body =>
    refine ((keeps_runBlock bodies hs collect sourced).starts (.inner read)).bind fun r t _ hr ht => ?_
    exact keeps_pure ht (carried_ofResult hr)
  | conditional bs =>
    have ready : ∀ b ∈ bs, k.Ready (fun _ => s.origin c) b := fun b hb =>
      ⟨(sourced b hb).1, fun g hg => ⟨((sourced b hb).2 g hg).1, (placed b hb g hg).1, piece⟩⟩
    refine ((keeps_runBranches bodies hs collect ready).starts (.conditional read)).bind fun r t _ hr ht => ?_
    exact keeps_pure ht (carried_ofResult hr)
  | watch bs deps =>
    refine (keeps_addWatch hs piece sourced.1 placed deps line).bind fun _ t _ _ ht => ?_
    exact (keeps_debug ht _ _).bind fun _ u _ _ hu => keeps_pure hu trivial
  | function fn =>
    refine (keeps_define hs sourced.2).bind fun _ t _ _ ht => ?_
    exact (keeps_debug ht _ _).bind fun _ u _ _ hu => keeps_pure hu trivial
  | giveBack value debug =>
    cases value with
    | some e =>
      refine (evaluated rfl (sourced e rfl) (placed e rfl)).bind fun v t _ hv ht => ?_
      exact keeps_returning ht debug line hv
    | none => exact keeps_returning hs debug line trivial
  | call value debug =>
    obtain ⟨b, accs, rfl, hb, haccs⟩ := placed
    have stands : (s.origin c).Stands c (.atom b accs c.pos) := ⟨.refl c, .call read⟩
    refine (evaluated rfl sourced ⟨⟨c, stands, rfl⟩, hb, haccs⟩).bind fun v t _ _ ht => ?_
    exact (keeps_reportValue ht debug line "" v).bind fun _ u _ _ hu => keeps_pure hu trivial
  | expression value debug =>
    refine (evaluated rfl sourced placed).bind fun v t _ _ ht => ?_
    exact (keeps_reportValue ht debug line "" v).bind fun _ u _ _ hu => keeps_pure hu trivial

theorem keeps_runStatement (hs : k.Kept s) (collect : Bool) {c : Cursor} (piece : k.Piece c) :
    k.Keeps (k.Places host ⟨n + 1, .statement collect c, s⟩) s (runStatement host (innerAt host n) collect c)
      fun r => k.Carried r.1 ∧ k.Piece r.2 := by
  have hs : k.Kept (s.onLine c) := hs.congr rfl rfl rfl
  have accord : StatementContext.Accord k.source ⟨(s.onLine c).names, host.endCloses⟩
      ⟨(s.onLine c).names, host.endCloses⟩ := ⟨accord_names hs, rfl⟩
  obtain ⟨-, gives⟩ := statement_accord accord piece.covers
  obtain ⟨stands, stops⟩ := @statement_placed (s.origin c) host.endCloses piece.tidy
  cases read : statement ⟨(s.onLine c).names, host.endCloses⟩ c with
  | error e =>
    obtain ⟨e, rfl, stopped⟩ := stops read
    exact keeps_of_error (runStatement_of_error read) hs (places_of_unread (.statement read) stopped piece)
  | ok r =>
    obtain ⟨passes, sourced⟩ := gives read
    refine Keeps.of_eq (runStatement_of_ok read) ?_
    refine (keeps_perform bodies collect hs read piece sourced (stands read) c.pos.line).bind ?_
    intro flow u _ hflow hu
    exact (keeps_debug hu _ _).bind fun _ v _ _ hv => keeps_pure hv ⟨hflow, piece.reaches passes.reaches⟩

/-! ## Hoisted declarations -/

theorem keeps_bindHoist (hs : k.Kept s) {h : Hoist} (piece : k.Piece h.initializer) :
    k.Keeps (k.Settles host ⟨n + 1, .initializer h, s⟩) s (bindHoist host (innerAt host n) h) fun _ => True := by
  have given := (twins_expression (accord_names hs) Terminator.never piece.covers).gives
  have ends := concludes_expression ⟨s.names, h.initializer⟩ Terminator.never
  unfold bindHoist
  refine (keeps_read hs piece given ends .initializer).bind ?_
  rintro ⟨e, d⟩ t run ⟨⟨-, sourced⟩, -, placed⟩ ht
  obtain ⟨read, rfl⟩ := run_read_eq_ok run
  have value := ((keeps_eval bodies e ht ⟨sourced, placed, piece⟩).starts (.initial read)).locate piece
    (.initializer read)
  -- The failure has its place now, so the statement in front of which this happens does not give it another.
  refine value.settle.bind fun v u _ hv hu => Keeps.modify_bind ?_
  have bound : k.Kept (u.declareHoisted h.header.name v h.header.mutability h.header.life h.line) :=
    hu.declareHoisted h.header.name hv h.header.mutability h.header.life h.line
  exact (keeps_display bound v).bind fun text x _ _ hx => keeps_debug hx _ _

omit bodies in
theorem keeps_bindHoists {τ : Task} (hs : k.Kept s) (line : Int) {hoists : List Hoist}
    (pieces : ∀ h ∈ hoists, k.Piece h.initializer)
    (each : ∀ {before h after earlier t}, hoists = before ++ h :: after → h.Due line →
      bindHoists host (innerAt host n) line before s = .ok earlier t → k.Kept t → k.Piece h.initializer →
      k.Keeps (k.Settles host τ) t (bindHoist host (innerAt host n) h) fun _ => True) :
    k.Keeps (k.Settles host τ) s (bindHoists host (innerAt host n) line hoists)
      fun hoists => ∀ h ∈ hoists, k.Piece h.initializer := by
  induction hoists generalizing s with
  | nil => exact keeps_pure hs pieces
  | cons h hoists ih =>
    obtain ⟨first, rest⟩ := List.forall_mem_cons.1 pieces
    have whole {before after : List Hoist} {h' : Hoist} (split : hoists = before ++ h' :: after) :
        h :: hoists = (h :: before) ++ h' :: after := by rw [split, List.cons_append]
    rw [bindHoists]
    split
    · next waits =>
      have others := ih hs rest fun {before h' after earlier t} split due run => by
        refine @each (h :: before) h' after (h :: earlier) t (whole split) due ?_
        rw [bindHoists, if_pos waits, Run.bind_of_ok run]
        rfl
      exact others.bind fun left t _ hleft ht => keeps_pure ht (List.forall_mem_cons.2 ⟨first, hleft⟩)
    · next due =>
      refine (@each [] h hoists [] s rfl (Hoist.due_of_not due) rfl hs first).bind fun _ t bound _ ht => ?_
      have others := ih ht rest fun {before h' after earlier u} split due' run => by
        refine @each (h :: before) h' after ({ h with bound := true } :: earlier) u (whole split) due' ?_
        rw [bindHoists, if_neg due, Run.bind_of_ok bound, Run.bind_of_ok run]
        rfl
      exact others.bind fun left u _ hleft hu => keeps_pure hu (List.forall_mem_cons.2 ⟨first, hleft⟩)

theorem keeps_bindDue {collect : Bool} {c d : Cursor} {p : Stage} (hs : k.Kept p.state)
    (pieces : ∀ h ∈ p.waiting, k.Piece h.initializer) (arrives : Arrives host (innerAt host n) collect c s p d) :
    k.Keeps (k.Places host ⟨n + 1, .statements collect c, s⟩) p.state (bindDue host (innerAt host n) p.waiting d)
      fun hoists => ∀ h ∈ hoists, k.Piece h.initializer := by
  by_cases waits : p.waiting = []
  · rw [waits]
    exact keeps_pure hs fun _ hh => nomatch hh
  · rw [bindDue_of_ne_nil waits]
    have hs : k.Kept (p.state.onLine d) := hs.congr rfl rfl rfl
    refine Keeps.modify_bind ((keeps_bindHoists hs d.pos.line pieces ?_).unmoved _)
    intro before h after earlier t split due run ht piece
    exact (keeps_bindHoist bodies ht piece).permit fun _ settled =>
      settled.starts (.initializer arrives split due run)

/-! ## Bodies -/

omit bodies in
theorem keeps_collectValue {τ : Task} (hs : k.Kept s) (collect : Bool) (flow : Flow) :
    k.Keeps (k.Places host τ) s (collectValue collect flow) fun _ => True := by
  unfold collectValue
  split
  · next v =>
    split
    · refine keeps_modify ?_
      exact hs.congr rfl rfl rfl
    · exact keeps_pure hs trivial
  · exact keeps_pure hs trivial

theorem keeps_statementLoop {collect : Bool} {c : Cursor} (fuel : Nat) {p : Stage} {turns : List Turn}
    (reached : Turns host (innerAt host n) collect (.start c s) turns p) (hs : k.Kept p.state)
    (pieces : ∀ h ∈ p.waiting, k.Piece h.initializer) (piece : k.Piece c) :
    k.Keeps (k.Places host ⟨n + 1, .statements collect c, s⟩) p.state
      (statementLoop host (innerAt host n) collect fuel p.waiting p.cursor) k.Returned := by
  induction fuel generalizing p turns with
  | zero => exact keeps_throw hs (places_of_unplaced rfl)
  | succ fuel ih =>
    rw [statementLoop]
    dsimp only
    split
    · exact keeps_pure hs returned_none
    · next more =>
      have arrives : Arrives host (innerAt host n) collect c s p (Lexical.skipGap p.cursor) :=
        ⟨⟨turns, reached⟩, rfl, Bool.eq_false_of_not_eq_true more⟩
      have start : k.Piece (Lexical.skipGap p.cursor) := (piece.reaches reached.reaches).reaches (reaches_skipGap _)
      refine (keeps_bindDue bodies hs pieces arrives).bind fun waiting t bound pieces ht => ?_
      have first := ((keeps_runStatement bodies ht collect start).locate start .statement).starts
        (.statement arrives bound)
      refine first.bind ?_
      rintro ⟨flow, d⟩ u ran ⟨hflow, rest⟩ hu
      have ran := Run.locate_eq_ok ran
      refine (keeps_collectValue hu collect flow).bind fun _ v collected _ hv => ?_
      have goes (stays : ∀ w, flow ≠ .returned w) : k.Keeps (k.Places host ⟨n + 1, .statements collect c, s⟩) v
          (do checkWatches host (innerAt host n); statementLoop host (innerAt host n) collect fuel waiting d)
          k.Returned := by
        -- Watches are looked at outside of the statement: what fails there without a place gets none.
        refine ((keeps_checkWatches bodies hv).starts (.look arrives bound ran stays collected)).bind
          fun _ w looked _ hw => ?_
        obtain ⟨stmt, read⟩ := read_of_runStatement ran
        have takes : p.Takes host (innerAt host n) collect ⟨_, stmt, t, u, flow⟩ ⟨waiting, d, w⟩ :=
          ⟨rfl, arrives.more, bound, read, ran, stays, Run.bind_eq_ok.2 ⟨_, v, collected, looked⟩⟩
        exact ih (reached.snoc takes) hw pieces
      cases flow with
      | returned value => exact keeps_pure hv (returned_some hflow)
      | next | produced value => exact goes fun _ => Flow.noConfusion

theorem keeps_runStatements (hs : k.Kept s) (collect : Bool) {c : Cursor} (piece : k.Piece c) :
    k.Keeps (k.Places host ⟨n + 1, .statements collect c, s⟩) s (runStatements host (innerAt host n) collect c)
      k.Returned := by
  have pieces : ∀ h ∈ hoists c, k.Piece h.initializer := fun h hh => piece.reaches (from_hoists c h hh).1
  exact keeps_statementLoop bodies _ (.stay (.start c s)) hs pieces piece

end Statements

/-! ## Frames within frames -/

theorem bodies_innerAt (natives : ∀ f ∈ host.functions, k.Native f) (n : Nat) : k.Bodies host n := by
  induction n with
  | zero =>
    refine ⟨natives, fun hs _ _ => ?_, fun hs _ => ?_⟩
    · exact keeps_throw hs (places_of_unplaced rfl)
    · exact keeps_throw hs (places_of_unplaced rfl)
  | succ n ih =>
    refine ⟨natives, fun hs piece collect => ?_, fun hs tree => ?_⟩
    · exact keeps_runStatements ih hs collect piece
    · exact keeps_eval ih _ hs tree

/-- Whatever a source that was typed fails with begins over something typed. -/
theorem keeps_runSource (natives : ∀ f ∈ host.functions, k.Native f) (hs : k.Kept s) {c : Cursor}
    (piece : k.Piece c) :
    k.Keeps (k.Places host ⟨s.room + 1, .statements true c, s⟩) s (runSource host c) k.Returned :=
  (keeps_runStatements (bodies_innerAt natives s.room) hs true piece).of_eq (by rfl)

theorem keeps_runExpression (natives : ∀ f ∈ host.functions, k.Native f) (hs : k.Kept s) {o : Origin} {e : Expr}
    (tree : k.Tree o e) :
    k.Keeps (k.Places host ⟨s.room + 1, .evaluate o e, s⟩) s (runExpression host e) k.source.Holds :=
  (keeps_eval (bodies_innerAt natives s.room) e hs tree).of_eq (by rfl)

theorem keeps_runWatches (natives : ∀ f ∈ host.functions, k.Native f) (hs : k.Kept s) :
    k.Keeps (k.Places host ⟨s.room + 1, .look, s⟩) s (runWatches host) fun _ => True :=
  (keeps_checkWatches (bodies_innerAt natives s.room) hs).of_eq (by rfl)

end Ledger

end Gapscript
