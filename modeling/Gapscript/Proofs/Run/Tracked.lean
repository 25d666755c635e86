import Gapscript.Proofs.Run.Course

/-!
# Everything that runs stays on a course

One pass over the interpreter: whatever it runs in a frame tracks the same run of a host that may
close statements otherwise, as soon as the bodies of the frames it enters do so under a course that
`k` surrounds. Evaluation goes by the tree, branches and watches by their lists, and the statement
loop by the statements of its text, which have to start on lines of the course and to be read alike by
both hosts.
-/

namespace Gapscript

/-! ## Steps that stay on their line -/

theorem State.line_modifyTop (s : State) (f : Frame → Frame) : (s.modifyTop f).line = s.line := by
  unfold modifyTop
  split
  · rfl
  · rfl

theorem State.line_declareHoisted (s : State) (name : String) (v : Value) (m : Mutability)
    (life : LifeTime) (line : Int) : (s.declareHoisted name v m life line).line = s.line := by
  unfold declareHoisted
  rw [line_modifyTop]
  cases v with
  | _ => rfl

/-- What a return does with its value. -/
def Contract.returning (debug : Bool) (line : Int) (v : Value) : Run Flow := do
  Run.debug .function ("return " ++ (← Run.display v))
  reportValue debug line "return" v
  pure (.returned v)

namespace Course

open Pact

/-! ## Bodies that a course admits -/

/-- A statement may start under the cursor: its line is one of the course, and it is read alike by a
host that closes statements otherwise. -/
structure Admits {host : Host} (k : Course host) (closes : Bool) (c : Cursor) : Prop where
  line : k.Line c.pos.line
  alike : ∀ names, statement ⟨names, closes⟩ c = statement ⟨names, host.endCloses⟩ c

/-- Every statement of a text may start where the ones before it end. -/
inductive Passable {host : Host} (k : Course host) (closes : Bool) : Cursor → Prop
  | done {c : Cursor} (blank : (Lexical.skipGap c).atEnd = true) : Passable k closes c
  | next {c : Cursor} (admits : k.Admits closes (Lexical.skipGap c))
    (rest : ∀ names stmt d, statement ⟨names, host.endCloses⟩ (Lexical.skipGap c) = .ok (stmt, d) →
      Passable k closes d) : Passable k closes c

/-- A text is passable where a statement may start anywhere. -/
theorem passable_of_reaches {host : Host} {k : Course host} {closes : Bool} {c : Cursor}
    (admits : ∀ d, c.Reaches d → k.Admits closes d) : k.Passable closes c := by
  induction hn : c.rest.length using Nat.strongRecOn generalizing c with
  | ind n ih =>
    have start : c.Reaches (Lexical.skipGap c) := Cursor.reaches_skipGap c
    refine .next (admits _ start) fun names stmt d read => ?_
    have passed := start.then (passes_statement read)
    exact ih _ (hn ▸ passed.length_lt) (fun e reached => admits e (passed.reaches.trans reached)) rfl

/-! ## Bodies of functions -/

section Bodies

variable {host : Host} {k : Course host} {inner inner' : Inner} {stoppable : Prop} {s : State}

theorem change_declare (hs : k.Pre s) (name : String) (v : Value) (m : Mutability) (life : LifeTime) :
    k.Change s (s.declare name v m life) :=
  k.step hs (.declare s name v m life) (s.line_modifyTop _)

theorem change_declareHoisted (hs : k.Pre s) (name : String) (v : Value) (m : Mutability)
    (life : LifeTime) (line : Int) : k.Change s (s.declareHoisted name v m life line) :=
  k.step hs (.declareHoisted s name v m life line) (s.line_declareHoisted name v m life line)

theorem change_bindParams (hs : k.Pre s) (ps : List String) (vs : List Value) :
    k.Change s (bindParams ps vs s) := by
  induction ps generalizing vs s with
  | nil => exact k.refl hs
  | cons p ps ih =>
    cases vs with
    | nil => exact k.refl hs
    | cons v vs =>
      have first := change_declare hs p v .varVar .forever
      exact k.trans first (ih (k.stable hs first) vs)

theorem tracks_runBody (follows : k.Follows stoppable inner inner') (hs : k.Pre s) (text : Text)
    (pos : Position) (block : Bool) :
    k.Tracks stoppable s (runBody inner text pos block) (runBody inner' text pos block) := by
  unfold runBody
  split
  · exact (follows.statements false _ s hs).bind hs fun result t ht => tracks_pure ht _
  · refine (tracks_read hs fun names => gives_fullExpression names _).bind hs fun e t ht => ?_
    exact follows.expression e t ht

end Bodies

variable {host : Host} {inner inner' : Inner} {stoppable : Prop} {closes : Bool} {s : State}

/-! ## Expressions -/

section Passive

variable {k : Pact host}

theorem tracks_callFunction (nests : k.Nests stoppable inner inner') (hs : k.Pre s) (fn : FunctionRef)
    (args : List Value) (pos : Option Position) :
    k.Tracks stoppable s (callFunction host inner fn args pos)
      (callFunction (host.ending closes) inner' fn args pos) := by
  obtain ⟨k', surrounds, follows⟩ := nests
  unfold callFunction
  dsimp only
  split
  · exact tracks_throw_bind hs (k.ordinary (.arity _ _ _ _)) _ _
  · cases fn.code.body with
    | native slot arity =>
      refine (tracks_debug hs _ _).bind hs fun _ t ht => ?_
      rw [show (host.ending closes).functions = host.functions from rfl]
      cases hf : host.functions[slot]? with
      | none => exact tracks_pure ht _
      | some f => exact (tracks_native ht (Array.mem_of_getElem? hf) _).locate pos
    | script text bodyPos block =>
      refine (tracks_debug hs _ _).bind hs fun _ t ht => ?_
      refine Tracks.inFrame surrounds ht pos fun u hu => ?_
      have bound : k'.Tracks stoppable u (modify (bindParams fn.code.params args) : Run PUnit)
          (modify (bindParams fn.code.params args)) := tracks_modify (change_bindParams hu _ _)
      exact bound.bind hu fun _ v hv => tracks_runBody follows hv text bodyPos block

mutual

theorem tracks_eval (nests : k.Nests stoppable inner inner') (e : Expr) {s : State} (hs : k.Pre s) :
    k.Tracks stoppable s (eval host inner e) (eval (host.ending closes) inner' e) := by
  cases e with
  | atom b accs pos =>
    rw [eval, eval]
    refine ((tracks_evalBase nests b hs).locate (some pos)).bind hs fun v t ht => ?_
    exact tracks_evalAccessors nests pos accs v ht
  | unary op e =>
    rw [eval, eval]
    exact (tracks_eval nests e hs).bind hs fun v t ht => tracks_ofFault ht _
  | binary op l r =>
    rw [eval, eval]
    refine (tracks_eval nests l hs).bind hs fun a t ht => ?_
    split
    · exact tracks_pure ht a
    · exact tracks_pure ht a
    · refine (tracks_eval nests r ht).bind ht fun b u hu => ?_
      exact Tracks.get_bind (tracks_ofFault hu _)

theorem tracks_evalAll (nests : k.Nests stoppable inner inner') (es : List Expr) {s : State}
    (hs : k.Pre s) :
    k.Tracks stoppable s (evalAll host inner es) (evalAll (host.ending closes) inner' es) := by
  cases es with
  | nil => rw [evalAll, evalAll]; exact tracks_pure hs []
  | cons e es =>
    rw [evalAll, evalAll]
    refine (tracks_eval nests e hs).bind hs fun v t ht => ?_
    exact (tracks_evalAll nests es ht).bind ht fun vs u hu => tracks_pure hu _

theorem tracks_evalBase (nests : k.Nests stoppable inner inner') (b : Base) {s : State}
    (hs : k.Pre s) :
    k.Tracks stoppable s (evalBase host inner b) (evalBase (host.ending closes) inner' b) := by
  cases b with
  | literal v implicit => rw [evalBase, evalBase]; exact tracks_pure hs v
  | name name v => rw [evalBase, evalBase]; exact tracks_pure hs v
  | call name fn args pos =>
    rw [evalBase, evalBase]
    refine (tracks_evalAll nests args hs).bind hs fun vs t ht => ?_
    exact tracks_callFunction nests ht fn vs (some pos)
  | object keys values =>
    rw [evalBase, evalBase]
    exact (tracks_evalAll nests values hs).bind hs fun vs t ht =>
      tracks_modifyGet (k.passive ht (.newObject t _))
  | array elements =>
    rw [evalBase, evalBase]
    exact (tracks_evalAll nests elements hs).bind hs fun vs t ht =>
      tracks_modifyGet (k.passive ht (.newObject t _))
  | function fn =>
    rw [evalBase, evalBase]
    exact tracks_modifyGet (k.passive hs (.newFunction s fn))

theorem tracks_evalAccessors (nests : k.Nests stoppable inner inner') (pos : Position)
    (accs : List Accessor) (v : Value) {s : State} (hs : k.Pre s) :
    k.Tracks stoppable s (evalAccessors host inner pos v accs)
      (evalAccessors (host.ending closes) inner' pos v accs) := by
  cases accs with
  | nil => rw [evalAccessors, evalAccessors]; exact tracks_pure hs v
  | cons acc accs =>
    rw [evalAccessors, evalAccessors]
    refine (tracks_evalKey nests acc hs).bind hs fun key t ht => ?_
    refine Tracks.get_bind (((tracks_ofFault ht _).locate (some pos)).bind ht fun v u hu => ?_)
    exact tracks_evalAccessors nests pos accs v hu

theorem tracks_evalKey (nests : k.Nests stoppable inner inner') (acc : Accessor) {s : State}
    (hs : k.Pre s) :
    k.Tracks stoppable s (evalKey host inner acc) (evalKey (host.ending closes) inner' acc) := by
  cases acc with
  | dot name => rw [evalKey, evalKey]; exact tracks_pure hs name
  | index e =>
    rw [evalKey, evalKey]
    exact (tracks_eval nests e hs).bind hs fun v t ht => Tracks.get_bind (tracks_pure ht _)

end

/-! ## Blocks, branches and watches -/

variable (nests : k.Nests stoppable inner inner')

include nests

theorem tracks_runBlock (hs : k.Pre s) (collect : Bool) (body : Cursor) :
    k.Tracks stoppable s (runBlock inner collect body) (runBlock inner' collect body) := by
  obtain ⟨k', surrounds, follows⟩ := nests
  refine Tracks.inFrame surrounds hs _ fun u hu => Tracks.get_bind ?_
  exact (tracks_log hu _ _ _).bind hu fun _ v hv => follows.statements collect body v hv

theorem tracks_runBranches (hs : k.Pre s) (collect : Bool) (bs : List Branch) :
    k.Tracks stoppable s (runBranches host inner collect bs)
      (runBranches (host.ending closes) inner' collect bs) := by
  induction bs generalizing s with
  | nil => exact tracks_pure hs none
  | cons b bs ih =>
    rw [runBranches, runBranches]
    cases b.guard with
    | none => exact tracks_runBlock nests hs collect b.body
    | some g =>
      refine (tracks_eval nests g.tree hs).bind hs fun v t ht => ?_
      split
      · exact tracks_runBlock nests ht collect b.body
      · exact ih ht

omit nests in
theorem tracks_rereadWatch (hs : k.Pre s) (i : Nat) (w : Watch) :
    k.Tracks stoppable s (rereadWatch i w) (rereadWatch i w) := by
  refine ⟨?_, .inl rfl⟩
  unfold rereadWatch
  cases gives_readGuards s.names w.branches with
  | ok bs _ run =>
    obtain ⟨deps, -, hrun⟩ := run w.deps
    rw [hrun]
    dsimp only
    split
    · exact k.refl hs
    · exact k.passive hs (.depend s i deps)
  | error e reported run =>
    obtain ⟨deps, -, hrun⟩ := run w.deps
    rw [hrun]
    exact ⟨k.refl hs, k.ordinary (ordinary_settled reported)⟩

theorem tracks_fireWatch (hs : k.Pre s) (i : Nat) (w : Watch) :
    k.Tracks stoppable s (fireWatch host inner i w)
      (fireWatch (host.ending closes) inner' i w) := by
  refine (tracks_modify (k.passive hs (.firing s i true))).bind hs fun _ t ht => ?_
  refine Tracks.always ht (fun u => .firing u i false) ?_
  refine (tracks_debug ht _ _).bind ht fun _ u hu => ?_
  refine (tracks_rereadWatch hu i w).bind hu fun bs v hv => ?_
  exact (tracks_runBranches nests hv false bs).bind hv fun _ x hx => tracks_pure hx ()

theorem tracks_checkWatch (hs : k.Pre s) (i : Nat) :
    k.Tracks stoppable s (checkWatch host inner i) (checkWatch (host.ending closes) inner' i) := by
  unfold checkWatch
  refine Tracks.get_bind ?_
  cases hw : s.watches[i]? with
  | none => exact tracks_pure hs ()
  | some w =>
    dsimp only
    split
    · refine (tracks_modify (k.passive hs (.snapshot s i w hw))).bind hs fun _ t ht => ?_
      exact tracks_fireWatch nests ht i w
    · exact tracks_pure hs ()

theorem tracks_checkWatchesFrom (hs : k.Pre s) (i count : Nat) :
    k.Tracks stoppable s (checkWatchesFrom host inner i count)
      (checkWatchesFrom (host.ending closes) inner' i count) := by
  induction count generalizing i s with
  | zero => exact tracks_pure hs ()
  | succ count ih => exact (tracks_checkWatch nests hs i).bind hs fun _ t ht => ih ht (i + 1)

theorem tracks_checkWatches (hs : k.Pre s) :
    k.Tracks stoppable s (checkWatches host inner) (checkWatches (host.ending closes) inner') :=
  Tracks.get_bind (tracks_checkWatchesFrom nests hs 0 s.watches.length)

end Passive

section Steps

variable {k : Course host} (nests : k.Nests stoppable inner inner')

include nests

/-! ## Assignments -/

omit nests in
theorem tracks_assignName (hs : k.Pre s) (name : String) (mode : AssignMode) (rhs : Value) :
    k.Tracks stoppable s (assignName name mode rhs) (assignName name mode rhs) := by
  unfold assignName
  refine Tracks.get_bind ?_
  cases hv : s.lookupVariable name with
  | none =>
    dsimp only
    split
    · refine (tracks_set (change_declare hs name rhs .varVar .forever)).bind hs fun _ t ht => ?_
      exact (tracks_debug ht _ _).bind ht fun _ u hu => tracks_pure hu rhs
    · exact tracks_throw hs (k.ordinary (.unbound name none))
  | some v =>
    refine tracks_ofFault_bind hs fun _ permitted => tracks_ofFault_bind hs fun updated combined => ?_
    have assigned := k.step hs (.assign s name mode v rhs updated hv permitted combined) rfl
    exact (tracks_modify assigned).bind hs fun _ t ht => tracks_pure ht updated

theorem tracks_container (hs : k.Pre s) (v : Value) (acc : Accessor)
    (accs : List Accessor) :
    k.Tracks stoppable s (container host inner v acc accs)
      (container (host.ending closes) inner' v acc accs) := by
  induction accs generalizing v acc s with
  | nil => exact tracks_pure hs (v, acc)
  | cons next more ih =>
    rw [container, container]
    refine (tracks_evalKey nests acc hs).bind hs fun key t ht => ?_
    exact Tracks.get_bind ((tracks_ofFault ht _).bind ht fun v u hu => ih hu v next)

theorem tracks_assignProperty (hs : k.Pre s) (name : String)
    (acc : Accessor) (accs : List Accessor) (mode : AssignMode) (rhs : Value) :
    k.Tracks stoppable s (assignProperty host inner name acc accs mode rhs)
      (assignProperty (host.ending closes) inner' name acc accs mode rhs) := by
  unfold assignProperty
  refine Tracks.get_bind ?_
  cases s.lookupVariable name with
  | none => exact tracks_throw hs (k.ordinary (.unbound name none))
  | some v =>
    dsimp only
    split
    · exact tracks_throw_bind hs (k.ordinary (.fault _ none)) _ _
    · refine (tracks_container nests hs v.value acc accs).bind hs ?_
      rintro ⟨target, last⟩ t ht
      refine (tracks_evalKey nests last ht).bind ht fun key u hu => ?_
      cases target with
      | object ref =>
        refine Tracks.get_bind ((tracks_ofFault hu _).bind hu fun updated w hw => ?_)
        have stored := k.step hw (.setProperty w ref key updated) rfl
        exact (tracks_modify stored).bind hw fun _ x hx => tracks_pure hx updated
      | _ => exact tracks_throw hu (k.ordinary (.fault _ none))

theorem tracks_runAssignment (hs : k.Pre s) (a : Assignment) :
    k.Tracks stoppable s (runAssignment host inner a)
      (runAssignment (host.ending closes) inner' a) := by
  obtain ⟨name, accs, mode, value⟩ := a
  cases accs with
  | nil =>
    cases value with
    | none => exact tracks_assignName hs name mode _
    | some e => exact (tracks_eval nests e hs).bind hs fun v t ht => tracks_assignName ht name mode v
  | cons acc accs =>
    cases value with
    | none => exact tracks_assignProperty nests hs name acc accs mode _
    | some e =>
      refine (tracks_eval nests e hs).bind hs fun v t ht => ?_
      exact tracks_assignProperty nests ht name acc accs mode v

/-! ## Statements -/

omit nests in
theorem tracks_reportValue (hs : k.Pre s) (debug : Bool) (line : Int) (label : String) (v : Value) :
    k.Tracks stoppable s (reportValue debug line label v) (reportValue debug line label v) := by
  unfold reportValue
  split
  · exact Tracks.get_bind (tracks_log hs _ _ _)
  · exact tracks_pure hs ()

theorem tracks_runDeclaration (hs : k.Pre s) (line : Int) (h : Header)
    (value : Expr) (debug : Bool) :
    k.Tracks stoppable s (runDeclaration host inner line h value debug)
      (runDeclaration (host.ending closes) inner' line h value debug) := by
  unfold runDeclaration
  split
  · exact tracks_debug hs _ _
  · refine (tracks_eval nests value hs).bind hs fun v t ht => ?_
    have declared := change_declare ht h.name v h.mutability h.life
    refine (tracks_modify declared).bind ht fun _ u hu => ?_
    refine (tracks_display hu v).bind hu fun text w hw => ?_
    exact (tracks_debug hw _ _).bind hw fun _ x hx => tracks_reportValue hx debug line h.name v

omit nests in
theorem change_defined (hs : k.Pre s) (fn : Function) :
    k.Change s ((s.newFunction fn).2.define (s.newFunction fn).1) := by
  have created := k.step hs (.newFunction s fn) rfl
  exact k.trans created (k.step (k.stable hs created) (.define _ _) (State.line_modifyTop _ _))

theorem tracks_perform (hs : k.Pre s) (collect : Bool) (line : Int)
    (stmt : Statement) :
    k.Tracks stoppable s (perform host inner collect line stmt)
      (perform (host.ending closes) inner' collect line stmt) := by
  cases stmt with
  | declaration h value debug =>
    refine (tracks_runDeclaration nests hs line h value debug).bind hs fun _ t ht => ?_
    exact tracks_pure ht Flow.next
  | assignment a debug =>
    refine (tracks_runAssignment nests hs a).bind hs fun v t ht => ?_
    exact (tracks_reportValue ht debug line a.name v).bind ht fun _ u hu => tracks_pure hu Flow.next
  | block body => exact (tracks_runBlock nests hs collect body).bind hs fun r t ht => tracks_pure ht _
  | conditional bs =>
    exact (tracks_runBranches nests hs collect bs).bind hs fun r t ht => tracks_pure ht _
  | watch bs deps =>
    refine (tracks_modify (k.step hs (.addWatch s bs deps line) rfl)).bind hs fun _ t ht => ?_
    exact (tracks_debug ht _ _).bind ht fun _ u hu => tracks_pure hu Flow.next
  | function fn =>
    have defined : k.Tracks stoppable s
        (modify fun s => (s.newFunction fn).2.define (s.newFunction fn).1 : Run PUnit)
        (modify fun s => (s.newFunction fn).2.define (s.newFunction fn).1) :=
      tracks_modify (change_defined hs fn)
    refine defined.bind hs fun _ t ht => ?_
    exact (tracks_debug ht _ _).bind ht fun _ u hu => tracks_pure hu Flow.next
  | giveBack value debug =>
    have returned (v : Value) {t : State} (ht : k.Pre t) :
        k.Tracks stoppable t (Contract.returning debug line v) (Contract.returning debug line v) := by
      refine (tracks_display ht v).bind ht fun text u hu => ?_
      refine (tracks_debug hu _ _).bind hu fun _ w hw => ?_
      exact (tracks_reportValue hw debug line "return" v).bind hw fun _ x hx => tracks_pure hx _
    cases value with
    | some e => exact (tracks_eval nests e hs).bind hs fun v t ht => returned v ht
    | none => exact returned _ hs
  | call value debug =>
    refine (tracks_eval nests value hs).bind hs fun v t ht => ?_
    exact (tracks_reportValue ht debug line "" v).bind ht fun _ u hu => tracks_pure hu Flow.next
  | expression value debug =>
    refine (tracks_eval nests value hs).bind hs fun v t ht => ?_
    exact (tracks_reportValue ht debug line "" v).bind ht fun _ u hu => tracks_pure hu _

theorem tracks_runStatement (hs : k.Pre s) (collect : Bool) {c : Cursor} (admits : k.Admits closes c) :
    k.Tracks stoppable s (runStatement host inner collect c)
      (runStatement (host.ending closes) inner' collect c) := by
  unfold runStatement
  refine (tracks_modify (k.line hs admits.line)).bind hs fun _ t ht => Tracks.get_bind ?_
  rw [show (host.ending closes).endCloses = closes from rfl, admits.alike]
  cases hr : statement ⟨t.names, host.endCloses⟩ c with
  | error e =>
    obtain ⟨e', reported, rfl⟩ := settled_statement hr
    exact tracks_throw ht (k.ordinary (ordinary_settled reported))
  | ok r =>
    refine (tracks_perform nests ht collect c.pos.line r.1).bind ht fun flow u hu => ?_
    exact (tracks_debug hu _ _).bind hu fun _ v hv => tracks_pure hv _

theorem tracks_bindHoist (hs : k.Pre s) (h : Hoist) :
    k.Tracks stoppable s (bindHoist host inner h) (bindHoist (host.ending closes) inner' h) := by
  unfold bindHoist
  refine (tracks_read hs fun names => gives_expression names _ _).bind hs ?_
  rintro ⟨e, d⟩ t ht
  refine ((tracks_eval nests e ht).locate _).bind ht fun v u hu => ?_
  have declared := change_declareHoisted hu h.header.name v h.header.mutability h.header.life h.line
  refine (tracks_modify declared).bind hu fun _ w hw => ?_
  exact (tracks_display hw v).bind hw fun text x hx => tracks_debug hx _ _

theorem tracks_bindHoists (hs : k.Pre s) (line : Int) (hoists : List Hoist) :
    k.Tracks stoppable s (bindHoists host inner line hoists)
      (bindHoists (host.ending closes) inner' line hoists) := by
  induction hoists generalizing s with
  | nil => exact tracks_pure hs []
  | cons h hoists ih =>
    rw [bindHoists, bindHoists]
    split
    · exact (ih hs).bind hs fun rest t ht => tracks_pure ht _
    · refine (tracks_bindHoist nests hs h).bind hs fun _ t ht => ?_
      exact (ih ht).bind ht fun rest u hu => tracks_pure hu _

theorem tracks_bindDue (hs : k.Pre s) (hoists : List Hoist) {c : Cursor} (line : k.Line c.pos.line) :
    k.Tracks stoppable s (bindDue host inner hoists c)
      (bindDue (host.ending closes) inner' hoists c) := by
  cases hoists with
  | nil => exact tracks_pure hs []
  | cons h hoists =>
    refine (tracks_modify (k.line hs line)).bind hs fun _ t ht => ?_
    exact (tracks_bindHoists nests ht c.pos.line (h :: hoists)).locate _

omit nests in
theorem tracks_collectValue (hs : k.Pre s) (collect : Bool) (flow : Flow) :
    k.Tracks stoppable s (collectValue collect flow) (collectValue collect flow) := by
  unfold collectValue
  split
  · split
    · exact tracks_modify (k.step hs (.produce s _) rfl)
    · exact tracks_pure hs ()
  · exact tracks_pure hs ()

omit nests in
/-- A statement that was run was read, and leaves what reading it left. -/
theorem read_of_runStatement {collect : Bool} {c d : Cursor} {flow : Flow} {t : State}
    (h : runStatement host inner collect c s = .ok (flow, d) t) :
    ∃ names stmt, statement ⟨names, host.endCloses⟩ c = .ok (stmt, d) := by
  unfold runStatement at h
  obtain ⟨_, s₁, -, h⟩ := Run.bind_eq_ok.1 h
  obtain ⟨s₂, s₃, -, h⟩ := Run.bind_eq_ok.1 h
  cases hr : statement ⟨s₂.names, host.endCloses⟩ c with
  | error e => rw [hr] at h; cases h
  | ok r =>
    rw [hr] at h
    obtain ⟨_, s₄, -, h⟩ := Run.bind_eq_ok.1 h
    obtain ⟨_, s₅, -, h⟩ := Run.bind_eq_ok.1 h
    cases h
    exact ⟨s₂.names, r.1, hr⟩

/-- The statement loop does the same with any two budgets that are larger than the text. -/
theorem tracks_statementLoop (hs : k.Pre s) (collect : Bool)
    {fuel fuel' : Nat} (hoists : List Hoist) {c : Cursor} (passable : k.Passable closes c)
    (hfuel : c.rest.length < fuel) (hfuel' : c.rest.length < fuel') :
    k.Tracks stoppable s (statementLoop host inner collect fuel hoists c)
      (statementLoop (host.ending closes) inner' collect fuel' hoists c) := by
  induction passable generalizing fuel fuel' hoists s with
  | done blank =>
    obtain ⟨fuel, rfl⟩ : ∃ n, fuel = n + 1 := ⟨fuel - 1, by omega⟩
    obtain ⟨fuel', rfl⟩ : ∃ n, fuel' = n + 1 := ⟨fuel' - 1, by omega⟩
    rw [statementLoop, statementLoop]
    dsimp only
    rw [if_pos blank, if_pos blank]
    exact tracks_pure hs none
  | @next c admits rest ih =>
    obtain ⟨fuel, rfl⟩ : ∃ n, fuel = n + 1 := ⟨fuel - 1, by omega⟩
    obtain ⟨fuel', rfl⟩ : ∃ n, fuel' = n + 1 := ⟨fuel' - 1, by omega⟩
    rw [statementLoop, statementLoop]
    have start : c.Reaches (Lexical.skipGap c) := Cursor.reaches_skipGap c
    split
    · exact tracks_pure hs none
    · refine (tracks_bindDue nests hs hoists admits.line).bind hs fun hoists t ht => ?_
      refine ((tracks_runStatement nests ht collect admits).locate _).bind_of ht ?_
      rintro ⟨flow, d⟩ u ran hu
      -- The loop goes on where reading the statement ended, and there the text is passable again.
      obtain ⟨names, stmt, read⟩ := read_of_runStatement (Run.locate_eq_ok ran)
      have shorter := (start.then (passes_statement read)).length_lt
      refine (tracks_collectValue hu collect flow).bind hu fun _ v hv => ?_
      cases flow with
      | returned value => exact tracks_pure hv _
      | next | produced value =>
        refine (tracks_checkWatches nests hv).bind hv fun _ w hw => ?_
        exact ih names stmt d read hw hoists (by omega) (by omega)

theorem tracks_runStatements (hs : k.Pre s) (collect : Bool)
    {c : Cursor} (passable : k.Passable closes c) :
    k.Tracks stoppable s (runStatements host inner collect c)
      (runStatements (host.ending closes) inner' collect c) :=
  tracks_statementLoop nests hs collect (hoists c) passable (Nat.lt_succ_self _) (Nat.lt_succ_self _)

end Steps

end Course

end Gapscript
