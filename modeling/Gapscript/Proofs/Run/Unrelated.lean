import Gapscript.Proofs.Run.Following

/-!
# Runs do not notice a stranger

One pass over the interpreter: whatever it runs does without the stranger what it does with it, as long
as what it runs came from the text and the functions of the host do the same. Evaluation goes by the
tree, branches and watches by their lists, the statement loop by its budget, and nested frames by the
room left for them.
-/

namespace Gapscript

open Cursor Reading

namespace Stranger

/-- A body gave nothing back, or something from the text. -/
def Returned (k : Stranger) (r : Option Value) : Prop := ∀ v, r = some v → k.source.Holds v

theorem returned_none {k : Stranger} : k.Returned none := by
  intro v h
  cases h

theorem returned_some {k : Stranger} {v : Value} (hv : k.source.Holds v) : k.Returned (some v) := by
  intro w h
  cases h
  exact hv

/-- The flow carries nothing, or something from the text. -/
def Carried (k : Stranger) : Flow → Prop
  | .next => True
  | .produced v => k.source.Holds v
  | .returned v => k.source.Holds v

/-- The functions of the host do not notice the stranger. -/
def Natives (k : Stranger) (host : Host) : Prop :=
  ∀ {slot f}, slot < k.slots → host.functions[slot]? = some f → ∀ {call s}, k.Ready s →
    (∀ v ∈ call.args, k.source.Holds v) → k.Follows s (f.handler call) (f.handler call) k.source.Holds

/-- What runs in the frames that are entered does not notice the stranger, and neither do the functions
of the host. -/
structure Unnoticed (k : Stranger) (host : Host) (inner : Inner) : Prop where
  native : k.Natives host
  statements : ∀ {s c}, k.Ready s → k.source.Piece c → ∀ collect,
    k.Follows s (inner.statements collect c) (inner.statements collect c) k.Returned
  expression : ∀ {s e}, k.Ready s → e.Sourced k.source →
    k.Follows s (inner.expression e) (inner.expression e) k.source.Holds

variable {k : Stranger} {host : Host} {inner : Inner} {s : State}

/-! ## Bindings -/

theorem Ready.declare (hs : k.Ready s) {name : String} (named : k.source.Occurs name) {v : Value}
    (hv : k.source.Holds v) (m : Mutability) (life : LifeTime) : k.Keeps s (s.declare name v m life) := by
  have other := ne_of_occurs named
  refine ⟨?_, State.depth_modifyTop s _, State.only_declare other hs.occupied v m life⟩
  rw [Ready, ← State.declare_without other]
  exact Sourced.declare hs name hv m life

theorem follows_declare (hs : k.Ready s) {name : String} (named : k.source.Occurs name) {v : Value}
    (hv : k.source.Holds v) (m : Mutability) (life : LifeTime) :
    k.Follows s (modify fun s => s.declare name v m life : Run PUnit)
      (modify fun s => s.declare name v m life) fun _ => True :=
  follows_modify (State.declare_without (ne_of_occurs named) s v m life) (hs.declare named hv m life)

theorem follows_bindParams (hs : k.Ready s) {ps : List String} (named : ∀ p ∈ ps, k.source.Occurs p)
    {vs : List Value} (hvs : ∀ v ∈ vs, k.source.Holds v) :
    k.Follows s (modify (bindParams ps vs) : Run PUnit) (modify (bindParams ps vs)) fun _ => True := by
  induction ps generalizing vs s with
  | nil => exact follows_modify rfl (.refl hs)
  | cons p ps ih =>
    cases vs with
    | nil => exact follows_modify rfl (.refl hs)
    | cons v vs =>
      obtain ⟨first, rest⟩ := List.forall_mem_cons.1 named
      obtain ⟨hv, hvs⟩ := List.forall_mem_cons.1 hvs
      refine ((follows_declare hs first hv .varVar .forever).bind fun _ t _ ht => ih ht rest hvs).congr ?_ ?_
      · rfl
      · rfl

theorem follows_defined (hs : k.Ready s) {fn : Function} (named : k.source.Occurs fn.name)
    (code : k.source.Code fn) :
    k.Follows s (modify fun s => (s.newFunction fn).2.define (s.newFunction fn).1 : Run PUnit)
      (modify fun s => (s.newFunction fn).2.define (s.newFunction fn).1) fun _ => True := by
  let made : State := { s with identities := s.identities + 1 }
  let ref : FunctionRef := ⟨s.identities, fn⟩
  have other : ref.code.name ≠ k.name := ne_of_occurs named
  have ready : k.Ready made := Sourced.congr hs rfl rfl rfl
  have same : (made.without k.name).define ref = (made.define ref).without k.name :=
    State.define_without other made
  refine follows_modify same ⟨?_, State.depth_modifyTop made _, State.only_define other hs.occupied⟩
  change k.Sourced ((made.define ref).without k.name)
  rw [← same]
  exact Sourced.define ready (callable_of_code code)

/-! ## Functions -/

theorem follows_runBody (inside : k.Unnoticed host inner) (hs : k.Ready s) {text : Text}
    (piece : text <:+: k.text) (pos : Position) (block : Bool) :
    k.Follows s (runBody inner text pos block) (runBody inner text pos block) k.source.Holds := by
  unfold runBody
  split
  · refine (inside.statements hs (c := ⟨text, pos⟩) piece false).bind fun r t hr ht => follows_pure ht ?_
    cases r with
    | none => trivial
    | some v => exact hr v rfl
  · have covers : k.source.Covers ⟨text, pos⟩ := covers_of_piece piece
    refine (follows_read hs (twins_fullExpression (accord_names hs) covers)).bind fun e t he ht => ?_
    exact inside.expression ht he

theorem follows_callFunction (inside : k.Unnoticed host inner) (hs : k.Ready s) {fn : FunctionRef}
    (hfn : k.source.Holds (.function fn)) {args : List Value} (hargs : ∀ v ∈ args, k.source.Holds v)
    (pos : Option Position) :
    k.Follows s (callFunction host inner fn args pos) (callFunction host inner fn args pos)
      k.source.Holds := by
  change k.Callable fn.code at hfn
  unfold callFunction Callable at *
  dsimp only
  split
  · exact .error _ s rfl rfl (.refl hs)
  · cases hbody : fn.code.body with
    | native slot arity =>
      rw [hbody] at hfn
      refine (follows_debug hs _ _).bind fun _ t _ ht => ?_
      cases hf : host.functions[slot]? with
      | none => exact follows_pure ht trivial
      | some f => exact (inside.native hfn hf ht hargs).locate pos
    | script text bodyPos block =>
      rw [hbody] at hfn
      refine (follows_debug hs _ _).bind fun _ t _ ht => Follows.inFrame ht pos fun u hu => ?_
      refine (follows_bindParams hu hfn.1 hargs).bind fun _ v _ hv => ?_
      exact follows_runBody inside hv hfn.2 bodyPos block

/-! ## Expressions -/

theorem follows_newObject (hs : k.Ready s) {o : Object} (ho : k.Filled o) :
    k.Follows s (modifyGet fun s => s.newObject o : Run Value) (modifyGet fun s => s.newObject o)
      k.source.Holds :=
  follows_modifyGet rfl ⟨⟨hs.1, hs.2, hs.heap.alloc ho, hs.4⟩, rfl, rfl⟩ hs.heap.room

mutual

theorem follows_eval (inside : k.Unnoticed host inner) (e : Expr) {s : State} (hs : k.Ready s)
    (sourced : e.Sourced k.source) :
    k.Follows s (eval host inner e) (eval host inner e) k.source.Holds := by
  cases e with
  | atom b accs pos =>
    rw [eval]
    refine ((follows_evalBase inside b hs sourced.1).locate (some pos)).bind fun v t hv ht => ?_
    exact follows_evalAccessors inside pos accs hv ht sourced.2
  | unary op e =>
    rw [eval]
    refine (follows_eval inside e hs sourced).bind fun v t _ ht => ?_
    exact follows_ofFault ht fun w hw => holds_of_plain (isReference_unary hw)
  | binary op l r =>
    rw [eval]
    refine (follows_eval inside l hs sourced.1).bind fun a t ha ht => ?_
    split
    · exact follows_pure ht ha
    · exact follows_pure ht ha
    · refine (follows_eval inside r ht sourced.2).bind fun b u hb hu => Follows.get_bind ?_
      exact follows_ofFault hu fun v hv => holds_binary hv ha hb

theorem follows_evalAll (inside : k.Unnoticed host inner) (es : List Expr) {s : State} (hs : k.Ready s)
    (sourced : Expr.AllSourced k.source es) :
    k.Follows s (evalAll host inner es) (evalAll host inner es) fun vs => ∀ v ∈ vs, k.source.Holds v := by
  cases es with
  | nil => rw [evalAll]; exact follows_pure hs fun _ hv => nomatch hv
  | cons e es =>
    rw [evalAll]
    refine (follows_eval inside e hs sourced.1).bind fun v t hv ht => ?_
    refine (follows_evalAll inside es ht sourced.2).bind fun vs u hvs hu => ?_
    exact follows_pure hu (List.forall_mem_cons.2 ⟨hv, hvs⟩)

theorem follows_evalBase (inside : k.Unnoticed host inner) (b : Base) {s : State} (hs : k.Ready s)
    (sourced : b.Sourced k.source) :
    k.Follows s (evalBase host inner b) (evalBase host inner b) k.source.Holds := by
  cases b with
  | literal v implicit => rw [evalBase]; exact follows_pure hs sourced
  | name name v => rw [evalBase]; exact follows_pure hs sourced
  | call name fn args pos =>
    rw [evalBase]
    refine (follows_evalAll inside args hs sourced.2).bind fun vs t hvs ht => ?_
    exact follows_callFunction inside ht sourced.1 hvs (some pos)
  | object keys values =>
    rw [evalBase]
    refine (follows_evalAll inside values hs sourced).bind fun vs t hvs ht => follows_newObject ht ?_
    exact (filled_empty false).setAll fun e he => hvs e.2 (List.of_mem_zip he).2
  | array elements =>
    rw [evalBase]
    refine (follows_evalAll inside elements hs sourced).bind fun vs t hvs ht => follows_newObject ht ?_
    exact (filled_empty true).fill 0 hvs
  | function fn =>
    rw [evalBase]
    exact follows_modifyGet rfl (.aside hs rfl rfl rfl rfl) (callable_of_code sourced)

theorem follows_evalAccessors (inside : k.Unnoticed host inner) (pos : Position) (accs : List Accessor)
    {v : Value} (hv : k.source.Holds v) {s : State} (hs : k.Ready s)
    (sourced : Accessor.AllSourced k.source accs) :
    k.Follows s (evalAccessors host inner pos v accs) (evalAccessors host inner pos v accs)
      k.source.Holds := by
  cases accs with
  | nil => rw [evalAccessors]; exact follows_pure hs hv
  | cons acc accs =>
    obtain ⟨first, rest⟩ := Accessor.allSourced_cons.1 sourced
    rw [evalAccessors]
    refine (follows_evalKey inside acc hs first).bind fun key t _ ht => Follows.get_bind ?_
    refine ((follows_ofFault ht fun w hw => ht.heap.readProperty hv hw).locate (some pos)).bind ?_
    intro w u hw hu
    exact follows_evalAccessors inside pos accs hw hu rest

theorem follows_evalKey (inside : k.Unnoticed host inner) (acc : Accessor) {s : State} (hs : k.Ready s)
    (sourced : acc.Sourced k.source) :
    k.Follows s (evalKey host inner acc) (evalKey host inner acc) fun _ => True := by
  cases acc with
  | dot name => rw [evalKey]; exact follows_pure hs trivial
  | index e =>
    rw [evalKey]
    exact (follows_eval inside e hs sourced).bind fun v t _ ht => Follows.get_bind (follows_pure ht trivial)

end

/-! ## Blocks, branches and watches -/

theorem follows_runBlock (inside : k.Unnoticed host inner) (hs : k.Ready s) (collect : Bool) {body : Cursor}
    (piece : k.source.Piece body) :
    k.Follows s (runBlock inner collect body) (runBlock inner collect body) k.Returned := by
  refine Follows.inFrame hs _ fun u hu => Follows.get_bind ?_
  exact (follows_log hu _ _ _).bind fun _ v _ hv => inside.statements hv piece collect

theorem follows_runBranches (inside : k.Unnoticed host inner) (hs : k.Ready s) (collect : Bool)
    {bs : List Branch} (sourced : ∀ b ∈ bs, b.Sourced k.source) :
    k.Follows s (runBranches host inner collect bs) (runBranches host inner collect bs) k.Returned := by
  induction bs generalizing s with
  | nil => exact follows_pure hs returned_none
  | cons b bs ih =>
    obtain ⟨first, rest⟩ := List.forall_mem_cons.1 sourced
    rw [runBranches]
    cases hg : b.guard with
    | none => exact follows_runBlock inside hs collect first.1
    | some g =>
      refine (follows_eval inside g.tree hs (first.2 g hg).1).bind fun v t _ ht => ?_
      split
      · exact follows_runBlock inside ht collect first.1
      · exact ih ht rest

/-- A change to a watch that keeps what it was declared with. -/
theorem Ready.modifyWatch (hs : k.Ready s) (i : Nat) {g : Watch → Watch}
    (hg : ∀ w, k.WatchSourced w → k.WatchSourced (g w)) : k.Keeps s (s.modifyWatch i g) :=
  ⟨Sourced.modifyWatch hs i hg, rfl, rfl⟩

theorem follows_modifyWatch (hs : k.Ready s) (i : Nat) {g : Watch → Watch}
    (hg : ∀ w, k.WatchSourced w → k.WatchSourced (g w)) :
    k.Follows s (modify fun s => s.modifyWatch i g : Run PUnit) (modify fun s => s.modifyWatch i g)
      fun _ => True :=
  follows_modify rfl (hs.modifyWatch i hg)

theorem follows_rereadWatch (hs : k.Ready s) (i : Nat) {w : Watch} (sourced : k.WatchSourced w) :
    k.Follows s (rereadWatch i w) (rereadWatch i w) fun bs => ∀ b ∈ bs, b.Sourced k.source := by
  have pieces : ∀ b ∈ w.branches, k.source.Piece b.body := fun b hb => (sourced.branches b hb).1
  have read := twins_readGuards (accord_names hs) pieces
    fun b hb g hg => covers_guard ((sourced.branches b hb).2 g hg).2
  have noted := read.notes w.deps
  have gives := read.gives
  rw [read.same] at noted gives
  cases hr : readGuards s.names w.branches w.deps with
  | error e deps =>
    refine .error e.settled s ?_ ?_ (.refl hs)
    · rw [rereadWatch, hr]
    · rw [rereadWatch, read.same, hr]
  | ok bs deps =>
    rw [hr] at noted
    -- Names noted now come from the guards, which are pieces of the text.
    have known : ∀ name ∈ deps, k.source.Occurs name := fun name hn =>
      (noted name hn).elim (sourced.deps name) id
    have others : ∀ name ∈ deps, name ≠ k.name := fun name hn => ne_of_occurs (known name hn)
    by_cases same : deps.length = w.deps.length
    · refine .ok bs s ?_ ?_ (.refl hs) (gives.of_run_ok hr)
      · rw [rereadWatch, hr]
        exact if_pos same
      · rw [rereadWatch, read.same, hr]
        exact if_pos same
    · have kept := hs.modifyWatch i (g := fun w => { w with deps := deps, snapshot := s.valuesOf deps })
        fun v hv => ⟨hv.branches, known⟩
      refine .ok bs _ ?_ ?_ kept (gives.of_run_ok hr)
      · rw [rereadWatch, hr]
        exact if_neg same
      · rw [rereadWatch, read.same, hr]
        dsimp only
        rw [if_neg same, State.valuesOf_without others]
        rfl

theorem follows_fireWatch (inside : k.Unnoticed host inner) (hs : k.Ready s) (i : Nat) {w : Watch}
    (sourced : k.WatchSourced w) :
    k.Follows s (fireWatch host inner i w) (fireWatch host inner i w) fun _ => True := by
  have switched (on : Bool) (w : Watch) (hw : k.WatchSourced w) : k.WatchSourced { w with firing := on } :=
    ⟨hw.branches, hw.deps⟩
  refine (follows_modifyWatch hs i (switched true)).bind fun _ t _ ht => ?_
  refine Follows.always ?_ (fun _ => rfl) fun u hu => hu.modifyWatch i (switched false)
  refine (follows_debug ht _ _).bind fun _ u _ hu => ?_
  refine (follows_rereadWatch hu i sourced).bind fun bs v hbs hv => ?_
  exact (follows_runBranches inside hv false hbs).bind fun _ x _ hx => follows_pure hx trivial

theorem follows_checkWatch (inside : k.Unnoticed host inner) (hs : k.Ready s) (i : Nat) :
    k.Follows s (checkWatch host inner i) (checkWatch host inner i) fun _ => True := by
  unfold checkWatch
  refine Follows.get_bind ?_
  have watches : (s.without k.name).watches = s.watches := rfl
  rw [watches]
  cases hw : s.watches[i]? with
  | none => exact follows_pure hs trivial
  | some w =>
    have sourced := hs.watches w (List.mem_of_getElem? hw)
    have values := State.valuesOf_without (fun name hn => ne_of_occurs (sourced.deps name hn)) s
    dsimp only
    rw [values]
    split
    · have seen (v : Watch) (hv : k.WatchSourced v) : k.WatchSourced { v with snapshot := s.valuesOf w.deps } :=
        ⟨hv.branches, hv.deps⟩
      exact (follows_modifyWatch hs i seen).bind fun _ t _ ht => follows_fireWatch inside ht i sourced
    · exact follows_pure hs trivial

theorem follows_checkWatchesFrom (inside : k.Unnoticed host inner) (hs : k.Ready s) (i count : Nat) :
    k.Follows s (checkWatchesFrom host inner i count) (checkWatchesFrom host inner i count)
      fun _ => True := by
  induction count generalizing i s with
  | zero => exact follows_pure hs trivial
  | succ count ih => exact (follows_checkWatch inside hs i).bind fun _ t _ ht => ih ht (i + 1)

theorem follows_checkWatches (inside : k.Unnoticed host inner) (hs : k.Ready s) :
    k.Follows s (checkWatches host inner) (checkWatches host inner) fun _ => True :=
  Follows.get_bind (follows_checkWatchesFrom inside hs 0 s.watches.length)

/-! ## Assignments -/

theorem follows_assign (hs : k.Ready s) {name : String} (named : k.source.Occurs name) {v : Value}
    (hv : k.source.Holds v) :
    k.Follows s (modify fun s => s.assign name v : Run PUnit) (modify fun s => s.assign name v)
      fun _ => True := by
  have other := ne_of_occurs named
  refine follows_modify (State.assign_without other s v) ⟨?_, rfl, State.only_assign other s v⟩
  rw [Ready, ← State.assign_without other]
  exact Sourced.assign hs name hv

theorem follows_assignName (hs : k.Ready s) {name : String} (named : k.source.Occurs name)
    (mode : AssignMode) {rhs : Value} (hrhs : k.source.Holds rhs) :
    k.Follows s (assignName name mode rhs) (assignName name mode rhs) k.source.Holds := by
  have found := State.lookupVariable_without (ne_of_occurs named) s
  unfold assignName
  refine Follows.get_bind ?_
  rw [found]
  cases hv : s.lookupVariable name with
  | none =>
    dsimp only
    split
    · have declared := follows_declare hs named hrhs .varVar .forever
      refine Follows.bind (P := fun _ => True) (declared.congr rfl rfl) fun _ t _ ht => ?_
      exact (follows_debug ht _ _).bind fun _ u _ hu => follows_pure hu hrhs
    · exact follows_throw hs _
  | some v =>
    rw [hv] at found
    have hold := Sourced.lookupVariable hs found
    refine (follows_ofFault (Q := fun _ => True) hs fun _ _ => trivial).bind fun _ t _ ht => ?_
    refine (follows_ofFault ht fun w hw => holds_combine hw hold hrhs).bind fun w u hw hu => ?_
    exact (follows_assign hu named hw).bind fun _ x _ hx => follows_pure hx hw

theorem follows_container (inside : k.Unnoticed host inner) (hs : k.Ready s) {v : Value}
    (hv : k.source.Holds v) {acc : Accessor} (hacc : acc.Sourced k.source) {accs : List Accessor}
    (haccs : Accessor.AllSourced k.source accs) :
    k.Follows s (container host inner v acc accs) (container host inner v acc accs)
      fun r => k.source.Holds r.1 ∧ r.2.Sourced k.source := by
  induction accs generalizing v acc s with
  | nil => exact follows_pure hs ⟨hv, hacc⟩
  | cons next more ih =>
    obtain ⟨first, rest⟩ := Accessor.allSourced_cons.1 haccs
    rw [container]
    refine (follows_evalKey inside acc hs hacc).bind fun key t _ ht => Follows.get_bind ?_
    refine (follows_ofFault ht fun w hw => ht.heap.readProperty hv hw).bind fun w u hw hu => ?_
    exact ih hu hw first rest

theorem follows_setProperty (hs : k.Ready s) (ref : Nat) (key : String) {v : Value} (hv : k.source.Holds v) :
    k.Follows s (modify fun s => { s with heap := s.heap.setProperty ref key v } : Run PUnit)
      (modify fun s => { s with heap := s.heap.setProperty ref key v }) fun _ => True :=
  follows_modify rfl ⟨⟨hs.1, hs.2, hs.heap.setProperty ref key hv, hs.4⟩, rfl, rfl⟩

theorem follows_assignProperty (inside : k.Unnoticed host inner) (hs : k.Ready s) {name : String}
    (named : k.source.Occurs name) {acc : Accessor} (hacc : acc.Sourced k.source) {accs : List Accessor}
    (haccs : Accessor.AllSourced k.source accs) (mode : AssignMode) {rhs : Value}
    (hrhs : k.source.Holds rhs) :
    k.Follows s (assignProperty host inner name acc accs mode rhs)
      (assignProperty host inner name acc accs mode rhs) k.source.Holds := by
  have found := State.lookupVariable_without (ne_of_occurs named) s
  unfold assignProperty
  refine Follows.get_bind ?_
  rw [found]
  cases hv : s.lookupVariable name with
  | none => exact follows_throw hs _
  | some v =>
    rw [hv] at found
    dsimp only
    split
    · exact .error _ s rfl rfl (.refl hs)
    · refine (follows_container inside hs (Sourced.lookupVariable hs found) hacc haccs).bind ?_
      rintro ⟨target, last⟩ t ⟨htarget, hlast⟩ ht
      refine (follows_evalKey inside last ht hlast).bind fun key u _ hu => ?_
      cases target with
      | object ref =>
        refine Follows.get_bind ?_
        have old := hu.heap.lookup htarget key
        refine (follows_ofFault hu fun w hw => holds_combine hw old hrhs).bind fun w x hw hx => ?_
        exact (follows_setProperty hx ref key hw).bind fun _ y _ hy => follows_pure hy hw
      | _ => exact follows_throw hu _

theorem follows_runAssignment (inside : k.Unnoticed host inner) (hs : k.Ready s) {a : Assignment}
    (named : k.source.Occurs a.name) (haccs : Accessor.AllSourced k.source a.accessors)
    (hvalue : ∀ e, a.value = some e → e.Sourced k.source) :
    k.Follows s (runAssignment host inner a) (runAssignment host inner a) k.source.Holds := by
  obtain ⟨name, accs, mode, value⟩ := a
  cases accs with
  | nil =>
    cases value with
    | none => exact follows_assignName hs named mode trivial
    | some e =>
      refine (follows_eval inside e hs (hvalue e rfl)).bind fun v t hv ht => ?_
      exact follows_assignName ht named mode hv
  | cons acc accs =>
    obtain ⟨first, rest⟩ := Accessor.allSourced_cons.1 haccs
    cases value with
    | none => exact follows_assignProperty inside hs named first rest mode trivial
    | some e =>
      refine (follows_eval inside e hs (hvalue e rfl)).bind fun v t hv ht => ?_
      exact follows_assignProperty inside ht named first rest mode hv

/-! ## Statements -/

theorem follows_reportValue (hs : k.Ready s) (debug : Bool) (line : Int) (label : String) (v : Value) :
    k.Follows s (reportValue debug line label v) (reportValue debug line label v) fun _ => True := by
  unfold reportValue
  split
  · exact Follows.get_bind (follows_log hs _ _ _)
  · exact follows_pure hs trivial

theorem follows_runDeclaration (inside : k.Unnoticed host inner) (hs : k.Ready s) (line : Int) {h : Header}
    (named : k.source.Occurs h.name) {value : Expr} (sourced : value.Sourced k.source) (debug : Bool) :
    k.Follows s (runDeclaration host inner line h value debug) (runDeclaration host inner line h value debug)
      fun _ => True := by
  unfold runDeclaration
  split
  · exact follows_debug hs _ _
  · refine (follows_eval inside value hs sourced).bind fun v t hv ht => ?_
    refine (follows_declare ht named hv h.mutability h.life).bind fun _ u _ hu => ?_
    refine (follows_display hu v).bind fun text w _ hw => ?_
    exact (follows_debug hw _ _).bind fun _ x _ hx => follows_reportValue hx debug line h.name v

theorem follows_addWatch (hs : k.Ready s) {bs : List Branch} (hbs : ∀ b ∈ bs, b.Sourced k.source)
    {deps : List String} (hdeps : ∀ name ∈ deps, k.source.Occurs name) (line : Int) :
    k.Follows s (modify fun s => s.addWatch bs deps line : Run PUnit)
      (modify fun s => s.addWatch bs deps line) fun _ => True := by
  have values := State.valuesOf_without (fun name hn => ne_of_occurs (hdeps name hn)) s
  have same : (s.without k.name).addWatch bs deps line = (s.addWatch bs deps line).without k.name := by
    rw [State.addWatch, values]
    rfl
  refine follows_modify same ⟨?_, rfl, rfl⟩
  rw [Ready, ← same]
  exact Sourced.addWatch hs hbs hdeps line

theorem returned_flow {r : Option Value} (h : k.Returned r) : k.Carried (.ofResult r) := by
  cases r with
  | none => trivial
  | some v => exact h v rfl

theorem follows_returning (hs : k.Ready s) (debug : Bool) (line : Int) {v : Value} (hv : k.source.Holds v) :
    k.Follows s (Contract.returning debug line v) (Contract.returning debug line v) k.Carried := by
  refine (follows_display hs v).bind fun text u _ hu => ?_
  refine (follows_debug hu _ _).bind fun _ w _ hw => ?_
  exact (follows_reportValue hw debug line "return" v).bind fun _ x _ hx => follows_pure hx hv

theorem follows_perform (inside : k.Unnoticed host inner) (hs : k.Ready s) (collect : Bool) (line : Int)
    {stmt : Statement} (sourced : stmt.Sourced k.source) :
    k.Follows s (perform host inner collect line stmt) (perform host inner collect line stmt)
      k.Carried := by
  cases stmt with
  | declaration h value debug =>
    refine (follows_runDeclaration inside hs line sourced.1 sourced.2 debug).bind fun _ t _ ht => ?_
    exact follows_pure ht trivial
  | assignment a debug =>
    refine (follows_runAssignment inside hs sourced.1 sourced.2.1 sourced.2.2).bind fun v t _ ht => ?_
    exact (follows_reportValue ht debug line a.name v).bind fun _ u _ hu => follows_pure hu trivial
  | block body =>
    exact (follows_runBlock inside hs collect sourced).bind fun r t hr ht => follows_pure ht (returned_flow hr)
  | conditional bs =>
    exact (follows_runBranches inside hs collect sourced).bind fun r t hr ht => follows_pure ht (returned_flow hr)
  | watch bs deps =>
    refine (follows_addWatch hs sourced.1 sourced.2 line).bind fun _ t _ ht => ?_
    exact (follows_debug ht _ _).bind fun _ u _ hu => follows_pure hu trivial
  | function fn =>
    refine (follows_defined hs sourced.1 sourced.2).bind fun _ t _ ht => ?_
    exact (follows_debug ht _ _).bind fun _ u _ hu => follows_pure hu trivial
  | giveBack value debug =>
    cases value with
    | some e =>
      refine (follows_eval inside e hs (sourced e rfl)).bind fun v t hv ht => ?_
      exact follows_returning ht debug line hv
    | none => exact follows_returning hs debug line trivial
  | call value debug =>
    refine (follows_eval inside value hs sourced).bind fun v t _ ht => ?_
    exact (follows_reportValue ht debug line "" v).bind fun _ u _ hu => follows_pure hu trivial
  | expression value debug =>
    refine (follows_eval inside value hs sourced).bind fun v t hv ht => ?_
    exact (follows_reportValue ht debug line "" v).bind fun _ u _ hu => follows_pure hu hv

theorem follows_line (hs : k.Ready s) (line : Int) :
    k.Follows s (modify fun s => { s with line := line } : Run PUnit) (modify fun s => { s with line := line })
      fun _ => True :=
  follows_modify rfl (.aside hs rfl rfl rfl rfl)

theorem follows_runStatement (inside : k.Unnoticed host inner) (hs : k.Ready s) (collect : Bool) {c : Cursor}
    (piece : k.source.Piece c) :
    k.Follows s (runStatement host inner collect c) (runStatement host inner collect c)
      fun r => k.Carried r.1 ∧ c.Passes r.2 := by
  unfold runStatement
  refine (follows_line hs c.pos.line).bind fun _ t _ ht => Follows.get_bind ?_
  have accord : StatementContext.Accord k.source ⟨(t.without k.name).names, host.endCloses⟩
      ⟨t.names, host.endCloses⟩ := ⟨accord_names ht, rfl⟩
  obtain ⟨same, gives⟩ := statement_accord accord (covers_of_piece piece)
  rw [← same]
  cases hr : statement ⟨(t.without k.name).names, host.endCloses⟩ c with
  | error e => exact follows_throw ht e
  | ok r =>
    obtain ⟨passes, sourced⟩ := gives hr
    refine (follows_perform inside ht collect c.pos.line sourced).bind fun flow u hflow hu => ?_
    exact (follows_debug hu _ _).bind fun _ v _ hv => follows_pure hv ⟨hflow, passes⟩

/-- The declaration was found in the text. -/
def HoistSourced (k : Stranger) (h : Hoist) : Prop :=
  k.source.Covers h.initializer ∧ k.source.Occurs h.header.name

theorem follows_bindHoist (inside : k.Unnoticed host inner) (hs : k.Ready s) {h : Hoist}
    (sourced : k.HoistSourced h) :
    k.Follows s (bindHoist host inner h) (bindHoist host inner h) fun _ => True := by
  obtain ⟨covers, named⟩ := sourced
  have other := ne_of_occurs named
  unfold bindHoist
  refine (follows_read hs (twins_expression (accord_names hs) Terminator.never covers)).bind ?_
  rintro ⟨e, d⟩ t ⟨-, he⟩ ht
  refine ((follows_eval inside e ht he).locate _).bind fun v u hv hu => ?_
  have same := State.declareHoisted_without other u v h.header.mutability h.header.life h.line
  have depth : (u.declareHoisted h.header.name v h.header.mutability h.header.life h.line).depth = u.depth := by
    unfold State.declareHoisted
    cases v <;> exact State.depth_modifyTop _ _
  refine (follows_modify same ⟨?_, depth, State.only_declareHoisted other hu.occupied _ _ _ _⟩).bind ?_
  · rw [Ready, ← same]
    exact Sourced.declareHoisted hu _ hv _ _ _
  · exact fun _ w _ hw => (follows_display hw v).bind fun text x _ hx => follows_debug hx _ _

theorem follows_bindHoists (inside : k.Unnoticed host inner) (hs : k.Ready s) (line : Int) {hoists : List Hoist}
    (sourced : ∀ h ∈ hoists, k.HoistSourced h) :
    k.Follows s (bindHoists host inner line hoists) (bindHoists host inner line hoists)
      fun hoists => ∀ h ∈ hoists, k.HoistSourced h := by
  induction hoists generalizing s with
  | nil => exact follows_pure hs sourced
  | cons h hoists ih =>
    obtain ⟨first, rest⟩ := List.forall_mem_cons.1 sourced
    rw [bindHoists]
    split
    · exact (ih hs rest).bind fun left t hleft ht => follows_pure ht (List.forall_mem_cons.2 ⟨first, hleft⟩)
    · refine (follows_bindHoist inside hs first).bind fun _ t _ ht => ?_
      exact (ih ht rest).bind fun left u hleft hu => follows_pure hu (List.forall_mem_cons.2 ⟨first, hleft⟩)

theorem follows_bindDue (inside : k.Unnoticed host inner) (hs : k.Ready s) {hoists : List Hoist}
    (sourced : ∀ h ∈ hoists, k.HoistSourced h) (c : Cursor) :
    k.Follows s (bindDue host inner hoists c) (bindDue host inner hoists c)
      fun hoists => ∀ h ∈ hoists, k.HoistSourced h := by
  cases hoists with
  | nil => exact follows_pure hs sourced
  | cons h hoists =>
    refine (follows_line hs c.pos.line).bind fun _ t _ ht => ?_
    exact (follows_bindHoists inside ht c.pos.line sourced).locate _

theorem follows_collectValue (hs : k.Ready s) (collect : Bool) (flow : Flow) :
    k.Follows s (collectValue collect flow) (collectValue collect flow) fun _ => True := by
  unfold collectValue
  split
  · next v =>
    split
    · exact follows_modify (f := fun s => { s with produced := s.produced.push v }) rfl (.aside hs rfl rfl rfl rfl)
    · exact follows_pure hs trivial
  · exact follows_pure hs trivial

theorem follows_statementLoop (inside : k.Unnoticed host inner) (hs : k.Ready s) (collect : Bool) (fuel : Nat)
    {hoists : List Hoist} (sourced : ∀ h ∈ hoists, k.HoistSourced h) {c : Cursor} (piece : k.source.Piece c) :
    k.Follows s (statementLoop host inner collect fuel hoists c) (statementLoop host inner collect fuel hoists c)
      k.Returned := by
  induction fuel generalizing hoists c s with
  | zero => exact follows_throw hs _
  | succ fuel ih =>
    rw [statementLoop]
    have start : k.source.Piece (Lexical.skipGap c) := (covers_of_piece piece).piece (reaches_skipGap c).includes
    split
    · exact follows_pure hs returned_none
    · refine (follows_bindDue inside hs sourced _).bind fun hoists t sourced ht => ?_
      refine ((follows_runStatement inside ht collect start).locate _).bind ?_
      rintro ⟨flow, d⟩ u ⟨hflow, passes⟩ hu
      refine (follows_collectValue hu collect flow).bind fun _ v _ hv => ?_
      have rest : k.source.Piece d := (covers_of_piece start).piece passes.reaches.includes
      cases flow with
      | returned value => exact follows_pure hv (returned_some hflow)
      | next | produced value =>
        exact (follows_checkWatches inside hv).bind fun _ w _ hw => ih hw sourced rest

theorem follows_runStatements (inside : k.Unnoticed host inner) (hs : k.Ready s) (collect : Bool) {c : Cursor}
    (piece : k.source.Piece c) :
    k.Follows s (runStatements host inner collect c) (runStatements host inner collect c) k.Returned := by
  have covers := covers_of_piece piece
  refine follows_statementLoop inside hs collect _ (fun h hh => ?_) piece
  obtain ⟨reached, named⟩ := from_hoists c h hh
  exact ⟨covers.reaches reached, covers.occurs named⟩

/-! ## Frames within frames -/

theorem unnoticed_innerAt (natives : k.Natives host) (n : Nat) : k.Unnoticed host (innerAt host n) := by
  induction n with
  | zero => exact ⟨natives, fun hs _ _ => follows_throw hs _, fun hs _ => follows_throw hs _⟩
  | succ n ih =>
    refine ⟨natives, fun hs piece collect => ?_, fun hs sourced => ?_⟩
    · exact follows_runStatements ih hs collect piece
    · exact follows_eval ih _ hs sourced

/-- A program does not notice a name that its text does not mention. -/
theorem follows_runSource (natives : k.Natives host) (hs : k.Ready s) {c : Cursor} (piece : k.source.Piece c) :
    k.Follows s (runSource host c) (runSource host c) k.Returned :=
  (follows_runStatements (unnoticed_innerAt natives s.room) hs true piece).congr rfl rfl

end Stranger

end Gapscript
