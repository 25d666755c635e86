import Gapscript.Proofs.Reading.Notes
import Gapscript.Proofs.Run.Journey

/-!
# Everything that runs makes a journey

One pass over the interpreter: whatever it runs in a frame makes a journey as soon as the bodies of
the frames it enters do, so everything does, at every depth of frames. Evaluation goes by the tree,
branches and watches by their lists, and the statement loop by its budget. A watch is fired between
two moves of its own, and what its body does happens while it is being fired.
-/

namespace Gapscript

open Run

/-- Native functions leave frames and watches as they are, and what runs one frame deeper makes
journeys, whichever watches are being fired. -/
structure Inner.Leads (host : Host) (inner : Inner) : Prop where
  natives : ∀ f ∈ host.functions, f.KeepsBindings
  statements : ∀ collect c fs s, (inner.statements collect c).Leads host fs s
  expression : ∀ e fs s, (inner.expression e).Leads host fs s

section Travel

variable {host : Host} {fs : List Firing} {s : State}

variable {inner : Inner} (bodies : inner.Leads host)

include bodies

/-! ## Bodies of functions -/

theorem leads_runBody (text : Text) (pos : Position) (block : Bool) :
    (runBody inner text pos block).Leads host fs s := by
  unfold runBody
  split
  · exact (bodies.statements false _ fs s).bind fun _ _ _ => leads_pure _
  · exact (leads_read _).bind fun e t _ => bodies.expression e fs t

theorem leads_native {f : HostFunction} (known : f ∈ host.functions) (call : Invocation) :
    (f.handler call).Leads host fs s := by
  intro hs
  have kept := (bodies.natives f known call s hs.balanced).1
  exact .of_quiet kept.sameStack (.native s f call known)

theorem leads_callFunction (fn : FunctionRef) (args : List Value) (pos : Option Position) :
    (callFunction host inner fn args pos).Leads host fs s := by
  unfold callFunction
  dsimp only
  split
  · exact leads_throw_bind _ _
  · cases fn.code.body with
    | native slot arity =>
      refine (leads_debug _ _).bind fun _ t _ => ?_
      cases hf : host.functions[slot]? with
      | none => exact leads_pure _
      | some f => exact (leads_native bodies (Array.mem_of_getElem? hf) _).locate pos
    | script text bodyPos block =>
      refine (leads_debug _ _).bind fun _ t _ => Leads.inFrame pos fn.code.params args fun u => ?_
      exact leads_runBody bodies text bodyPos block

/-! ## Expressions -/

omit bodies

mutual

theorem leads_eval (bodies : inner.Leads host) (e : Expr) (s : State) :
    (eval host inner e).Leads host fs s := by
  cases e with
  | atom b accs pos =>
    rw [eval]
    refine ((leads_evalBase bodies b s).locate (some pos)).bind fun v t _ => ?_
    exact leads_evalAccessors bodies pos accs v t
  | unary op e =>
    rw [eval]
    exact (leads_eval bodies e s).bind fun v t _ => leads_ofFault _
  | binary op l r =>
    rw [eval]
    refine (leads_eval bodies l s).bind fun a t _ => ?_
    split
    · exact leads_pure a
    · exact leads_pure a
    · exact (leads_eval bodies r t).bind fun b u _ => Leads.get_bind (leads_ofFault _)

theorem leads_evalAll (bodies : inner.Leads host) (es : List Expr) (s : State) :
    (evalAll host inner es).Leads host fs s := by
  cases es with
  | nil =>
    rw [evalAll]
    exact leads_pure []
  | cons e es =>
    rw [evalAll]
    refine (leads_eval bodies e s).bind fun v t _ => ?_
    exact (leads_evalAll bodies es t).bind fun vs u _ => leads_pure _

theorem leads_evalBase (bodies : inner.Leads host) (b : Base) (s : State) :
    (evalBase host inner b).Leads host fs s := by
  cases b with
  | literal v implicit =>
    rw [evalBase]
    exact leads_pure v
  | name name v =>
    rw [evalBase]
    exact leads_pure v
  | call name fn args pos =>
    rw [evalBase]
    exact (leads_evalAll bodies args s).bind fun vs t _ => leads_callFunction bodies fn vs (some pos)
  | object keys values =>
    rw [evalBase]
    refine (leads_evalAll bodies values s).bind fun vs t _ => leads_modifyGet fun _ => ?_
    exact .of_quiet ⟨rfl, rfl, rfl⟩ (.newObject t _)
  | array elements =>
    rw [evalBase]
    refine (leads_evalAll bodies elements s).bind fun vs t _ => leads_modifyGet fun _ => ?_
    exact .of_quiet ⟨rfl, rfl, rfl⟩ (.newObject t _)
  | function fn =>
    rw [evalBase]
    exact leads_modifyGet fun _ => .of_quiet ⟨rfl, rfl, rfl⟩ (.newFunction s fn)

theorem leads_evalAccessors (bodies : inner.Leads host) (pos : Position) (accs : List Accessor) (v : Value)
    (s : State) : (evalAccessors host inner pos v accs).Leads host fs s := by
  cases accs with
  | nil =>
    rw [evalAccessors]
    exact leads_pure v
  | cons acc accs =>
    rw [evalAccessors]
    refine (leads_evalKey bodies acc s).bind fun key t _ => Leads.get_bind ?_
    exact ((leads_ofFault _).locate (some pos)).bind fun v u _ => leads_evalAccessors bodies pos accs v u

theorem leads_evalKey (bodies : inner.Leads host) (acc : Accessor) (s : State) :
    (evalKey host inner acc).Leads host fs s := by
  cases acc with
  | dot name =>
    rw [evalKey]
    exact leads_pure name
  | index e =>
    rw [evalKey]
    exact (leads_eval bodies e s).bind fun v t _ => Leads.get_bind (leads_pure _)

end

include bodies

/-! ## Blocks, branches and watches -/

theorem leads_runBlock (collect : Bool) (body : Cursor) : (runBlock inner collect body).Leads host fs s := by
  have inside : ∀ u, (do
      let s ← get
      Run.log .trace .scope ("entered scope depth " ++ toString s.depth)
      inner.statements collect body : Run (Option Value)).Leads host fs u := fun u =>
    Leads.get_bind ((leads_log _ _ _).bind fun _ v _ => bodies.statements collect body fs v)
  exact Leads.inFrame (some body.pos) [] [] inside

theorem leads_runBranches (collect : Bool) (bs : List Branch) :
    (runBranches host inner collect bs).Leads host fs s := by
  induction bs generalizing s with
  | nil => exact leads_pure none
  | cons b bs ih =>
    rw [runBranches]
    cases b.guard with
    | none => exact leads_runBlock bodies collect b.body
    | some g =>
      refine (leads_eval bodies g.tree s).bind fun v t _ => ?_
      split
      · exact leads_runBlock bodies collect b.body
      · exact ih

omit bodies in
/-- A watch that is being fired may come to depend on further names. -/
theorem leads_rereadWatch {f : Firing} {w v : Watch} (here : s.watches[f.index]? = some v)
    (same : v.deps = w.deps) : (rereadWatch f.index w).Leads host (f :: fs) s := by
  intro _
  unfold Run.reached rereadWatch
  cases gives_readGuards s.names w.branches with
  | error e _ run =>
    obtain ⟨deps, -, hrun⟩ := run w.deps
    rw [hrun]
    exact .refl s
  | ok bs _ run =>
    obtain ⟨deps, grows, hrun⟩ := run w.deps
    rw [hrun]
    dsimp only
    by_cases known : deps.length = w.deps.length
    · rw [if_pos known]
      exact .refl s
    · rw [if_neg known]
      rw [← same] at grows
      exact .of_moves ⟨rfl, rfl, rfl⟩ (.depend s fs f v deps here grows) trivial

omit bodies in
theorem watches_firing {i : Nat} {w : Watch} (here : s.watches[i]? = some w) :
    (s.firing i w).watches[i]? = some { w with snapshot := s.valuesOf w.deps, firing := true } := by
  simp [State.firing, State.modifyWatch, State.record, here]

omit bodies in
theorem reached_always {α : Type} (cleanup : State → State) (x : Run α) (s : State) :
    (Run.always cleanup x).reached s = cleanup (x.reached s) := by
  unfold Run.reached Run.always
  cases x s with
  | ok a t => rfl
  | error e t => rfl

omit bodies in
/-- A watch makes the journey of its body between being fired and being put to rest. -/
theorem way_fireWatch {i : Nat} {w : Watch} {body : Run Unit} (hs : s.Under fs)
    (here : s.watches[i]? = some w) (idle : w.firing = false)
    (changed : differ (s.valuesOf w.deps) w.snapshot = true)
    (inside : body.Leads host (⟨i, s.depth⟩ :: fs) (s.firing i w)) :
    Way host fs s ((Run.always (fun s => s.modifyWatch i fun w => { w with firing := false })
      body).reached (s.firing i w)) := by
  have under : (s.firing i w).Under (⟨i, s.depth⟩ :: fs) :=
    ⟨⟨hs.balanced.height, hs.balanced.limit⟩, List.forall_mem_cons.2 ⟨Nat.le_refl _, hs.within⟩⟩
  obtain ⟨same, ds, journey, above⟩ := inside under
  have fired : Moves host ⟨s, fs⟩ (.fire i) ⟨s.firing i w, ⟨i, s.depth⟩ :: fs⟩ :=
    .fire s fs i w here idle changed
  rw [reached_always]
  refine ⟨⟨same.height, same.depth, same.limit⟩, _,
    (Journey.move fired journey).trans (.single (.rest _ fs ⟨i, s.depth⟩)), ?_⟩
  exact List.forall_mem_append.2
    ⟨List.forall_mem_cons.2 ⟨trivial, above⟩, List.forall_mem_singleton.2 trivial⟩

theorem leads_checkWatch (i : Nat) : (checkWatch host inner i).Leads host fs s := by
  unfold checkWatch
  refine Leads.get_bind ?_
  cases here : s.watches[i]? with
  | none => exact leads_pure ()
  | some w =>
    by_cases due : (!w.firing && differ (s.valuesOf w.deps) w.snapshot) = true
    · dsimp only
      rw [if_pos due]
      rw [Bool.and_eq_true, Bool.not_eq_true'] at due
      have inside : (do
          let bs ← rereadWatch i w
          let _ ← runBranches host inner false bs).Leads host (⟨i, s.depth⟩ :: fs) (s.firing i w) := by
        refine (leads_rereadWatch (f := ⟨i, s.depth⟩) (watches_firing here) rfl).bind fun bs t _ => ?_
        exact (leads_runBranches bodies false bs).bind fun _ _ _ => leads_pure ()
      exact fun hs => way_fireWatch hs here due.1 due.2 inside
    · dsimp only
      rw [if_neg due]
      exact leads_pure ()

theorem leads_checkWatchesFrom (i count : Nat) : (checkWatchesFrom host inner i count).Leads host fs s := by
  induction count generalizing i s with
  | zero => exact leads_pure ()
  | succ count ih => exact (leads_checkWatch bodies i).bind fun _ t _ => ih (i + 1)

theorem leads_checkWatches : (checkWatches host inner).Leads host fs s :=
  Leads.get_bind (leads_checkWatchesFrom bodies 0 s.watches.length)

/-! ## Assignments -/

omit bodies in
theorem leads_assignName (name : String) (mode : AssignMode) (rhs : Value) :
    (assignName name mode rhs).Leads host fs s := by
  unfold assignName
  refine Leads.get_bind ?_
  cases found : s.lookupVariable name with
  | none =>
    dsimp only
    split
    · refine Leads.after (fun hs => ?_) (leads_pure rhs) rfl
      refine .of_moves ?_ (.imply s fs name rhs found) (Nat.le_refl _)
      exact (State.sameStack_modifyTop hs.balanced _).announce _
    · exact leads_throw _
  | some v =>
    dsimp only
    cases permitted : mode.permitted name v.mutability with
    | error f => exact leads_throw_bind _ _
    | ok _ =>
      refine (leads_pure ()).bind fun _ t same => ?_
      cases same
      cases combined : mode.combine s.heap v.value rhs with
      | error f => exact leads_throw_bind _ _
      | ok new =>
        refine (leads_modify fun _ => ?_).bind fun _ t _ => leads_pure new
        exact .of_moves (s.sameStack_assign name new)
          (.assign s fs name mode v rhs new found permitted combined) trivial

theorem leads_container (accs : List Accessor) (v : Value) (acc : Accessor) :
    (container host inner v acc accs).Leads host fs s := by
  induction accs generalizing v acc s with
  | nil => exact leads_pure (v, acc)
  | cons next more ih =>
    refine (leads_evalKey bodies acc s).bind fun key t _ => Leads.get_bind ?_
    exact (leads_ofFault _).bind fun v u _ => ih v next

theorem leads_assignProperty (name : String) (acc : Accessor) (accs : List Accessor) (mode : AssignMode)
    (rhs : Value) : (assignProperty host inner name acc accs mode rhs).Leads host fs s := by
  unfold assignProperty
  refine Leads.get_bind ?_
  cases found : s.lookupVariable name with
  | none => exact leads_throw _
  | some v =>
    dsimp only
    by_cases editable : v.mutability.editable = true
    · rw [editable]
      refine (leads_container bodies accs v.value acc).bind fun r t followed => ?_
      obtain ⟨target, last⟩ := r
      refine (leads_evalKey bodies last t).bind fun key u keyed => ?_
      cases target with
      | object ref =>
        refine Leads.get_bind ?_
        cases combined : mode.combine u.heap (u.heap.lookup ref key) rhs with
        | error f => exact leads_throw _
        | ok new =>
          have access : Access host v ref key u := ⟨inner, name, s, acc, accs, last, t, found, followed, keyed⟩
          refine (leads_modify fun _ => ?_).bind fun _ _ _ => leads_pure new
          exact .of_moves ⟨rfl, rfl, rfl⟩ (.write u fs v ref key new access editable) trivial
      | _ => exact leads_throw _
    · rw [Bool.not_eq_true] at editable
      rw [editable]
      exact leads_throw_bind _ _

theorem leads_runAssignment (a : Assignment) : (runAssignment host inner a).Leads host fs s := by
  obtain ⟨name, accs, mode, value⟩ := a
  cases accs with
  | nil =>
    cases value with
    | none => exact leads_assignName name mode _
    | some e => exact (leads_eval bodies e s).bind fun rhs t _ => leads_assignName name mode rhs
  | cons acc accs =>
    cases value with
    | none => exact leads_assignProperty bodies name acc accs mode _
    | some e =>
      refine (leads_eval bodies e s).bind fun rhs t _ => ?_
      exact leads_assignProperty bodies name acc accs mode rhs

/-! ## Statements -/

omit bodies in
theorem leads_reportValue (debug : Bool) (line : Int) (label : String) (v : Value) :
    (reportValue debug line label v).Leads host fs s := by
  unfold reportValue
  split
  · exact Leads.get_bind (leads_log _ _ _)
  · exact leads_pure ()

theorem leads_runDeclaration (line : Int) (h : Header) (value : Expr) (debug : Bool) :
    (runDeclaration host inner line h value debug).Leads host fs s := by
  unfold runDeclaration
  split
  · exact leads_debug _ _
  · refine (leads_eval bodies value s).bind fun v t _ => ?_
    refine Leads.after (fun ht => ?_) (leads_reportValue debug line h.name v) rfl
    refine .of_moves ?_ (.declare t fs h v) (Nat.le_refl _)
    exact (State.sameStack_modifyTop ht.balanced _).announce _

theorem leads_perform (collect : Bool) (line : Int) {stmt : Statement} (distinct : stmt.Distinct) :
    (perform host inner collect line stmt).Leads host fs s := by
  cases stmt with
  | declaration h value debug =>
    exact (leads_runDeclaration bodies line h value debug).bind fun _ t _ => leads_pure _
  | assignment a debug =>
    refine (leads_runAssignment bodies a).bind fun v t _ => ?_
    exact (leads_reportValue debug line a.name v).bind fun _ u _ => leads_pure _
  | block body => exact (leads_runBlock bodies collect body).bind fun r t _ => leads_pure _
  | conditional bs => exact (leads_runBranches bodies collect bs).bind fun r t _ => leads_pure _
  | watch bs deps =>
    refine (leads_modify fun _ => ?_).bind fun _ t _ => (leads_debug _ _).bind fun _ u _ => leads_pure _
    exact .of_moves ⟨rfl, rfl, rfl⟩ (.watch s fs bs deps line distinct) trivial
  | function fn =>
    refine (leads_modify fun hs => ?_).bind fun _ t _ => (leads_debug _ _).bind fun _ u _ => leads_pure _
    have made : Way host fs s (s.newFunction fn).2 :=
      .of_quiet ⟨rfl, rfl, rfl⟩ (.newFunction s fn)
    have bound := State.sameStack_define (made.under hs).balanced (s.newFunction fn).1
    exact made.trans (.of_quiet bound (.define _ _))
  | giveBack value debug =>
    unfold perform
    have rest : ∀ (v : Value) (t : State), (do
        Run.debug .function ("return " ++ (← Run.display v))
        reportValue debug line "return" v
        pure (.returned v) : Run Flow).Leads host fs t := fun v t =>
      (leads_display v).bind fun text u _ => (leads_debug _ _).bind fun _ w _ =>
        (leads_reportValue debug line "return" v).bind fun _ x _ => leads_pure _
    cases value with
    | none => exact (leads_pure _).bind fun v t _ => rest v t
    | some e => exact (leads_eval bodies e s).bind fun v t _ => rest v t
  | call value debug =>
    refine (leads_eval bodies value s).bind fun v t _ => ?_
    exact (leads_reportValue debug line "" v).bind fun _ u _ => leads_pure _
  | expression value debug =>
    refine (leads_eval bodies value s).bind fun v t _ => ?_
    exact (leads_reportValue debug line "" v).bind fun _ u _ => leads_pure _

omit bodies in
theorem leads_moveTo (line : Int) : (modify fun s => { s with line := line } : Run PUnit).Leads host fs s :=
  leads_modify fun _ => .of_quiet ⟨rfl, rfl, rfl⟩ (.line s line)

theorem leads_runStatement (collect : Bool) (c : Cursor) :
    (runStatement host inner collect c).Leads host fs s := by
  unfold runStatement
  refine (leads_moveTo _).bind fun _ t _ => Leads.get_bind ?_
  cases read : statement ⟨t.names, host.endCloses⟩ c with
  | error e => exact leads_throw _
  | ok r =>
    obtain ⟨stmt, d⟩ := r
    have distinct := distinct_statement _ c read
    refine (leads_perform bodies collect c.pos.line distinct).bind fun flow u _ => ?_
    exact (leads_debug _ _).bind fun _ v _ => leads_pure _

theorem leads_bindHoist (h : Hoist) : (bindHoist host inner h).Leads host fs s := by
  unfold bindHoist
  refine (leads_read _).bind fun r t _ => ?_
  refine ((leads_eval bodies r.1 t).locate _).bind fun v u _ => ?_
  refine Leads.after (fun hu => ?_) (leads_pure ()) rfl
  refine .of_moves ?_ (.hoist u fs h v) (Nat.le_refl _)
  exact (State.sameStack_declareHoisted hu.balanced _ _ _ _ _).announce _

theorem leads_bindHoists (line : Int) (hs : List Hoist) :
    (bindHoists host inner line hs).Leads host fs s := by
  induction hs generalizing s with
  | nil => exact leads_pure []
  | cons h hs ih =>
    unfold bindHoists
    split
    · exact ih.bind fun rest t _ => leads_pure _
    · refine (leads_bindHoist bodies h).bind fun _ t _ => ?_
      exact ih.bind fun rest u _ => leads_pure _

theorem leads_bindDue (hs : List Hoist) (c : Cursor) : (bindDue host inner hs c).Leads host fs s := by
  cases hs with
  | nil => exact leads_pure []
  | cons h hs =>
    refine (leads_moveTo _).bind fun _ t _ => ?_
    exact (leads_bindHoists bodies c.pos.line (h :: hs)).locate _

omit bodies in
theorem leads_collectValue (collect : Bool) (flow : Flow) :
    (collectValue collect flow).Leads host fs s := by
  cases flow with
  | produced v =>
    cases collect with
    | true => exact leads_modify fun _ => .of_quiet ⟨rfl, rfl, rfl⟩ (.produce s v)
    | false => exact leads_pure ()
  | next | returned v => exact leads_pure ()

theorem leads_statementLoop (collect : Bool) (fuel : Nat) (hs : List Hoist) (c : Cursor) :
    (statementLoop host inner collect fuel hs c).Leads host fs s := by
  induction fuel generalizing hs c s with
  | zero => exact leads_throw _
  | succ fuel ih =>
    unfold statementLoop
    dsimp only
    split
    · exact leads_pure none
    · refine (leads_bindDue bodies hs _).bind fun hs t _ => ?_
      refine ((leads_runStatement bodies collect _).locate _).bind fun r u _ => ?_
      obtain ⟨flow, d⟩ := r
      refine (leads_collectValue collect flow).bind fun _ v _ => ?_
      cases flow with
      | returned v => exact leads_pure _
      | next | produced v =>
        exact (leads_checkWatches bodies).bind fun _ w _ => ih hs d

theorem leads_runStatements (collect : Bool) (c : Cursor) :
    (runStatements host inner collect c).Leads host fs s :=
  leads_statementLoop bodies collect _ _ c

omit bodies in
/-- At every depth of frames, what runs makes a journey. -/
theorem leads_innerAt (natives : ∀ f ∈ host.functions, f.KeepsBindings) (n : Nat) : (innerAt host n).Leads host := by
  induction n with
  | zero =>
    refine ⟨natives, ?_, ?_⟩
    · intro collect c fs s
      unfold innerAt statementsAt
      exact leads_throw _
    · intro e fs s
      unfold innerAt valueAt
      exact leads_throw _
  | succ n ih =>
    refine ⟨natives, ?_, ?_⟩
    · intro collect c fs s
      unfold innerAt statementsAt
      exact leads_runStatements ih collect c
    · intro e fs s
      unfold innerAt valueAt
      exact leads_eval ih e s

end Travel

end Gapscript
