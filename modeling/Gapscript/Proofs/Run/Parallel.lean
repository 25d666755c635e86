import Gapscript.Proofs.Run.Abreast

/-!
# Runs stay abreast

One pass over the interpreter: from states beside each other, whatever it runs does with a shifted text
what it does with the text itself, as long as the functions of the host do and so do the frames that are
entered. Evaluation goes by the tree, branches and watches by their lists, and the statement loop by the
text that is left, for which any larger budget does.
-/

namespace Gapscript

open Cursor Reading

/-- A call, shifted. -/
def Shift.invocation (d : Shift) (call : Invocation) : Invocation :=
  ⟨call.args.map d.value, call.pos.map d.position⟩

/-- What a statement leaves behind, shifted. -/
def Shift.flow (d : Shift) : Flow → Flow
  | .next => .next
  | .produced v => .produced (d.value v)
  | .returned v => .returned (d.value v)

namespace Bridge

/-- A body gave nothing back, or something from the text. -/
def Returned (B : Bridge) (r : Option Value) : Prop := ∀ v, r = some v → B.source.Holds v

/-- The flow carries nothing, or something from the text. -/
def Carried (B : Bridge) : Flow → Prop
  | .next => True
  | .produced v => B.source.Holds v
  | .returned v => B.source.Holds v

/-- The function of the host does the same in states beside each other. -/
def Respects (B : Bridge) (f : HostFunction) : Prop :=
  ∀ {k s s' call}, B.Beside k s s' → (∀ v ∈ call.args, B.source.Holds v) →
    B.Abreast k s s' B.shift.value B.source.Holds (f.handler call) (f.handler (B.shift.invocation call))

/-- What runs in the frames that are entered stays abreast, and so do the functions of the host. -/
structure Together (B : Bridge) (k : Nat) (host : Host) (inner inner' : Inner) : Prop where
  native : ∀ f ∈ host.functions, B.Respects f
  statements : B.Deep (k + 1) → ∀ {s s' c}, B.Beside (k + 1) s s' → B.Piece c → ∀ collect,
    B.Abreast (k + 1) s s' (Option.map B.shift.value) B.Returned (inner.statements collect c)
      (inner'.statements collect (B.shift.cursor c))
  expression : B.Deep (k + 1) → ∀ {s s' e}, B.Beside (k + 1) s s' → e.Sourced B.source →
    B.Abreast (k + 1) s s' B.shift.value B.source.Holds (inner.expression e)
      (inner'.expression (B.shift.expr e))

variable {B : Bridge} {k : Nat} {host : Host} {inner inner' : Inner} {s s' : State}

theorem returned_none : B.Returned none := by
  intro v h
  cases h

theorem returned_some {v : Value} (hv : B.source.Holds v) : B.Returned (some v) := by
  intro w h
  cases h
  exact hv

theorem returned_flow {r : Option Value} (h : B.Returned r) : B.Carried (.ofResult r) := by
  cases r with
  | none => trivial
  | some v => exact h v rfl

theorem flow_ofResult (r : Option Value) : Flow.ofResult (r.map B.shift.value) = B.shift.flow (.ofResult r) := by
  cases r <;> rfl

/-! ## Bindings -/

theorem abreast_declare (hs : B.Beside k s s') (name : String) {v : Value} (hv : B.source.Holds v)
    (m : Mutability) {life : LifeTime} (fits : life.Fits) :
    B.Abreast k s s' id (fun _ => True) (modify fun s => s.declare name v m life : Run PUnit)
      (modify fun s => s.declare name (B.shift.value v) m life) :=
  abreast_modify (hs.declare name hv m fits)

theorem abreast_bindParams (hs : B.Beside k s s') (ps : List String) {vs : List Value}
    (hvs : ∀ v ∈ vs, B.source.Holds v) :
    B.Abreast k s s' id (fun _ => True) (modify (bindParams ps vs) : Run PUnit)
      (modify (bindParams ps (vs.map B.shift.value))) := by
  induction ps generalizing vs s s' with
  | nil => exact abreast_modify hs
  | cons p ps ih =>
    cases vs with
    | nil => exact abreast_modify hs
    | cons v vs =>
      obtain ⟨hv, hvs⟩ := List.forall_mem_cons.1 hvs
      have first := hs.declare p hv .varVar (show LifeTime.Fits .forever from trivial)
      exact (ih first hvs).congr rfl rfl

theorem abreast_defined (hs : B.Beside k s s') {fn : Function} (code : B.source.Code fn) :
    B.Abreast k s s' id (fun _ => True)
      (modify fun s => (s.newFunction fn).2.define (s.newFunction fn).1 : Run PUnit)
      (modify fun s => (s.newFunction (B.shift.function fn)).2.define
        (s.newFunction (B.shift.function fn)).1) := by
  obtain ⟨same, made⟩ := hs.newFunction fn
  refine abreast_modify ?_
  rw [same]
  exact made.define (written_of_code code)

/-! ## Functions -/

theorem abreast_runBody (together : B.Together k host inner inner') (deep : B.Deep (k + 1))
    (hs : B.Beside (k + 1) s s') {text : Text} {pos : Position} (piece : B.Piece ⟨text, pos⟩) (block : Bool) :
    B.Abreast (k + 1) s s' B.shift.value B.source.Holds (runBody inner text pos block)
      (runBody inner' text (B.shift.position pos) block) := by
  unfold runBody
  cases block with
  | true =>
    refine (together.statements deep hs piece false).bind fun r t t' hr ht => ?_
    cases r with
    | none => exact abreast_pure ht rfl trivial
    | some v => exact abreast_pure ht rfl (hr v rfl)
  | false =>
    have gives := (twins_fullExpression hs.accord (covers_of_piece piece)).gives
    refine (abreast_read hs (Shift.shifted_fullExpression s.names ⟨text, pos⟩) gives).bind ?_
    exact fun e t t' he ht => together.expression deep ht he

theorem abreast_callFunction (together : B.Together k host inner inner') (hs : B.Beside k s s')
    {fn : FunctionRef} (hfn : B.source.Holds (.function fn)) {args : List Value}
    (hargs : ∀ v ∈ args, B.source.Holds v) (pos : Option Position) :
    B.Abreast k s s' B.shift.value B.source.Holds (callFunction host inner fn args pos)
      (callFunction host inner' (B.shift.ref fn) (args.map B.shift.value) (pos.map B.shift.position)) := by
  change B.Written fn.code at hfn
  obtain ⟨id, name, params, body, line⟩ := fn
  cases body with
  | native slot arity =>
    change B.Abreast k s s' _ _ (callFunction host inner ⟨id, name, params, .native slot arity, line⟩ args pos)
      (callFunction host inner' ⟨id, name, params, .native slot arity, line⟩ _ _)
    unfold callFunction
    dsimp only
    rw [List.length_map]
    refine abreast_ite (fun _ => .error _ s s' rfl rfl hs) fun _ => ?_
    refine (abreast_debug hs _ (.same _)).bind fun _ t t' _ ht => ?_
    cases hf : host.functions[slot]? with
    | none => exact abreast_pure ht rfl trivial
    | some f => exact (together.native f (Array.mem_of_getElem? hf) ht hargs).locate rfl
  | script text bodyPos block =>
    let code : Function := ⟨name, params, .script text bodyPos block, line⟩
    change B.Abreast k s s' _ _ (callFunction host inner ⟨id, code⟩ args pos)
      (callFunction host inner' ⟨id, B.shift.function code⟩ _ _)
    unfold callFunction
    dsimp only
    rw [List.length_map, Shift.arity_function, Shift.name_function, Shift.describe_function]
    refine abreast_ite (fun _ => .error _ s s' rfl rfl hs) fun _ => ?_
    refine (abreast_debug hs _ (.line _ _ _)).bind fun _ t t' _ ht => Abreast.inFrame ht rfl ?_
    intro deep u u' hu
    refine (abreast_bindParams hu params hargs).bind fun _ v v' _ hv => ?_
    exact abreast_runBody together deep hv hfn block

/-! ## Expressions -/

theorem abreast_newObject (hs : B.Beside k s s') {o : Object} (ho : o.All B.source.Holds) :
    B.Abreast k s s' B.shift.value B.source.Holds (modifyGet fun s => s.newObject o : Run Value)
      (modifyGet fun s => s.newObject (B.shift.object o)) := by
  obtain ⟨same, made⟩ := hs.newObject ho
  exact abreast_modifyGet same made trivial

mutual

theorem abreast_eval (together : B.Together k host inner inner') (e : Expr) {s s' : State}
    (hs : B.Beside k s s') (sourced : e.Sourced B.source) :
    B.Abreast k s s' B.shift.value B.source.Holds (eval host inner e) (eval host inner' (B.shift.expr e)) := by
  cases e with
  | atom b accs pos =>
    rw [Shift.expr, eval, eval]
    refine ((abreast_evalBase together b hs sourced.1).locate rfl).bind fun v t t' hv ht => ?_
    exact abreast_evalAccessors together pos accs hv ht sourced.2
  | unary op e =>
    rw [Shift.expr, eval, eval]
    refine (abreast_eval together e hs sourced).bind fun v t t' _ ht => ?_
    exact abreast_ofFault ht (Shift.unary_value op v) fun w hw => scalars (isReference_unary hw)
  | binary op l r =>
    rw [Shift.expr, eval, eval]
    refine (abreast_eval together l hs sourced.1).bind fun a t t' ha ht => ?_
    have both : B.Abreast k t t' B.shift.value B.source.Holds
        (do
          let b ← eval host inner r
          let s ← get
          Run.ofFault (s.heap.binary op a b))
        (do
          let b ← eval host inner' (B.shift.expr r)
          let s ← get
          Run.ofFault (s.heap.binary op (B.shift.value a) b)) := by
      refine (abreast_eval together r ht sourced.2).bind fun b u u' hb hu => Abreast.get_bind ?_
      rw [hu.heap]
      exact abreast_ofFault hu (Shift.binary_heap _ op a b) fun v hv => holds_of_binary scalars hv ha hb
    rw [Shift.toBoolean_value]
    -- Only `&&` and `||` look at the left operand before the right one is evaluated.
    cases op with
    | and =>
      cases a.toBoolean with
      | false => exact abreast_pure ht rfl ha
      | true => exact both
    | or =>
      cases a.toBoolean with
      | false => exact both
      | true => exact abreast_pure ht rfl ha
    | _ => exact both

theorem abreast_evalAll (together : B.Together k host inner inner') (es : List Expr) {s s' : State}
    (hs : B.Beside k s s') (sourced : Expr.AllSourced B.source es) :
    B.Abreast k s s' (List.map B.shift.value) (fun vs => ∀ v ∈ vs, B.source.Holds v) (evalAll host inner es)
      (evalAll host inner' (B.shift.exprs es)) := by
  cases es with
  | nil =>
    rw [Shift.exprs, evalAll, evalAll]
    exact abreast_pure hs rfl fun _ hv => nomatch hv
  | cons e es =>
    rw [Shift.exprs, evalAll, evalAll]
    refine (abreast_eval together e hs sourced.1).bind fun v t t' hv ht => ?_
    refine (abreast_evalAll together es ht sourced.2).bind fun vs u u' hvs hu => ?_
    exact abreast_pure hu rfl (List.forall_mem_cons.2 ⟨hv, hvs⟩)

theorem abreast_evalBase (together : B.Together k host inner inner') (b : Base) {s s' : State}
    (hs : B.Beside k s s') (sourced : b.Sourced B.source) :
    B.Abreast k s s' B.shift.value B.source.Holds (evalBase host inner b)
      (evalBase host inner' (B.shift.base b)) := by
  cases b with
  | literal v implicit | name name v =>
    rw [Shift.base, evalBase, evalBase]
    exact abreast_pure hs rfl sourced
  | call name fn args pos =>
    rw [Shift.base, evalBase, evalBase]
    refine (abreast_evalAll together args hs sourced.2).bind fun vs t t' hvs ht => ?_
    exact abreast_callFunction together ht sourced.1 hvs (some pos)
  | object keys values =>
    rw [Shift.base, evalBase, evalBase]
    refine (abreast_evalAll together values hs sourced).bind fun vs t t' hvs ht => ?_
    have filled : (((keys.zip vs).foldl (fun o (k, v) => o.set k v) {} : Object)).All B.source.Holds :=
      (Object.all_empty false).setAll fun e he => hvs e.2 (List.of_mem_zip he).2
    have same := Shift.setAll_object (d := B.shift) {} (keys.zip vs)
    have empty : B.shift.object {} = {} := rfl
    rw [List.zip_map_right, ← empty, same]
    exact abreast_newObject ht filled
  | array elements =>
    rw [Shift.base, evalBase, evalBase]
    refine (abreast_evalAll together elements hs sourced).bind fun vs t t' hvs ht => ?_
    rw [Shift.ofElements_map]
    exact abreast_newObject ht ((Object.all_empty true).fill 0 hvs)
  | function fn =>
    rw [Shift.base, evalBase, evalBase]
    obtain ⟨same, made⟩ := hs.newFunction fn
    exact abreast_modifyGet (congrArg Value.function same) made (written_of_code sourced)

theorem abreast_evalAccessors (together : B.Together k host inner inner') (pos : Position)
    (accs : List Accessor) {v : Value} (hv : B.source.Holds v) {s s' : State} (hs : B.Beside k s s')
    (sourced : Accessor.AllSourced B.source accs) :
    B.Abreast k s s' B.shift.value B.source.Holds (evalAccessors host inner pos v accs)
      (evalAccessors host inner' (B.shift.position pos) (B.shift.value v) (B.shift.accessors accs)) := by
  cases accs with
  | nil =>
    rw [Shift.accessors, evalAccessors, evalAccessors]
    exact abreast_pure hs rfl hv
  | cons acc accs =>
    obtain ⟨first, rest⟩ := Accessor.allSourced_cons.1 sourced
    rw [Shift.accessors, evalAccessors, evalAccessors]
    refine (abreast_evalKey together acc hs first).bind fun key t t' _ ht => Abreast.get_bind ?_
    rw [ht.heap]
    refine ((abreast_ofFault ht (Shift.readProperty_heap _ v key)
      fun w hw => ht.filled.readProperty scalars hv hw).locate rfl).bind ?_
    exact fun w u u' hw hu => abreast_evalAccessors together pos accs hw hu rest

theorem abreast_evalKey (together : B.Together k host inner inner') (acc : Accessor) {s s' : State}
    (hs : B.Beside k s s') (sourced : acc.Sourced B.source) :
    B.Abreast k s s' id (fun _ => True) (evalKey host inner acc)
      (evalKey host inner' (B.shift.accessor acc)) := by
  cases acc with
  | dot name =>
    rw [Shift.accessor, evalKey, evalKey]
    exact abreast_pure hs rfl trivial
  | index e =>
    rw [Shift.accessor, evalKey, evalKey]
    refine (abreast_eval together e hs sourced).bind fun v t t' _ ht => Abreast.get_bind ?_
    rw [ht.heap, Shift.propertyKey_heap]
    exact abreast_pure ht rfl trivial

end

/-! ## Blocks, branches and watches -/

theorem abreast_runBlock (together : B.Together k host inner inner') (hs : B.Beside k s s') (collect : Bool)
    {body : Cursor} (piece : B.Piece body) :
    B.Abreast k s s' (Option.map B.shift.value) B.Returned (runBlock inner collect body)
      (runBlock inner' collect (B.shift.cursor body)) := by
  refine Abreast.inFrame hs rfl fun deep u u' hu => Abreast.get_bind ?_
  rw [hu.depth, hu.depth']
  exact (abreast_log hu _ _ (.same _)).bind fun _ v v' _ hv => together.statements deep hv piece collect

theorem abreast_runBranches (together : B.Together k host inner inner') (hs : B.Beside k s s') (collect : Bool)
    {bs : List Branch} (sourced : ∀ b ∈ bs, b.Sourced B.source) :
    B.Abreast k s s' (Option.map B.shift.value) B.Returned (runBranches host inner collect bs)
      (runBranches host inner' collect (bs.map B.shift.branch)) := by
  induction bs generalizing s s' with
  | nil => exact abreast_pure hs rfl returned_none
  | cons b bs ih =>
    obtain ⟨guard, body⟩ := b
    obtain ⟨first, rest⟩ := List.forall_mem_cons.1 sourced
    rw [List.map_cons, runBranches, runBranches]
    cases guard with
    | none => exact abreast_runBlock together hs collect first.1
    | some g =>
      refine (abreast_eval together g.tree hs (first.2 g rfl).1).bind fun v t t' _ ht => ?_
      rw [Shift.toBoolean_value]
      exact abreast_ite (fun _ => abreast_runBlock together ht collect first.1) fun _ => ih ht rest

theorem abreast_rereadWatch (hs : B.Beside k s s') (i : Nat) {w : Watch} (watched : B.Watched w) :
    B.Abreast k s s' (List.map B.shift.branch) (fun bs => ∀ b ∈ bs, b.Sourced B.source) (rereadWatch i w)
      (rereadWatch i (B.shift.watch w)) := by
  have gives := (twins_readGuards hs.accord watched.bodies
    fun b hb g hg => covers_of_piece (watched.guards b hb g hg)).gives
  have shifted := Shift.shifted_readGuards (d := B.shift) s.names w.branches w.deps
  rw [← hs.names] at shifted
  cases hr : readGuards s.names w.branches w.deps with
  | error e deps =>
    rw [hr] at shifted
    refine .error e.settled s s' ?_ ?_ hs
    · rw [rereadWatch, hr]
    · unfold rereadWatch Shift.watch
      dsimp only
      rw [shifted]
      exact congrArg (EStateM.Result.error · s') (Shift.settled_error e)
  | ok bs deps =>
    rw [hr] at shifted
    have holds := gives.of_run_ok hr
    by_cases same : deps.length = w.deps.length
    · refine .ok bs s s' ?_ ?_ hs holds
      · rw [rereadWatch, hr]
        exact if_pos same
      · unfold rereadWatch Shift.watch
        dsimp only
        rw [shifted]
        exact if_pos same
    · have noted := hs.modifyWatch i (fun w => { w with deps := deps, snapshot := s.valuesOf deps })
        (fun w => { w with deps := deps, snapshot := s'.valuesOf deps }) (fun w => by
          unfold Shift.watch
          rw [hs.valuesOf]) fun w hw => ⟨hw.bodies, hw.guards⟩
      refine .ok bs _ _ ?_ ?_ noted holds
      · rw [rereadWatch, hr]
        exact if_neg same
      · unfold rereadWatch Shift.watch
        dsimp only
        rw [shifted]
        exact if_neg same

theorem abreast_fireWatch (together : B.Together k host inner inner') (hs : B.Beside k s s') (i : Nat)
    {w : Watch} (watched : B.Watched w) :
    B.Abreast k s s' id (fun _ => True) (fireWatch host inner i w)
      (fireWatch host inner' i (B.shift.watch w)) := by
  have switched (on : Bool) {t t' : State} (ht : B.Beside k t t') :=
    ht.modifyWatch i (fun w => { w with firing := on }) (fun w => { w with firing := on }) (fun _ => rfl)
      fun w hw => ⟨hw.bodies, hw.guards⟩
  refine (abreast_modify (switched true hs)).bind fun _ t t' _ ht => ?_
  refine Abreast.always ?_ (fun u u' hu => switched false hu) fun u hu => ⟨hu.depth, hu.above, hu.height⟩
  refine (abreast_debug ht _ (.line _ _ _)).bind fun _ u u' _ hu => ?_
  refine (abreast_rereadWatch hu i watched).bind fun bs v v' hbs hv => ?_
  exact (abreast_runBranches together hv false hbs).bind fun _ x x' _ hx => abreast_pure hx rfl trivial

theorem differ_map (vs ws : List Value) :
    differ (vs.map B.shift.value) (ws.map B.shift.value) = differ vs ws := by
  induction vs generalizing ws with
  | nil => rfl
  | cons v vs ih =>
    cases ws with
    | nil => rfl
    | cons w ws => rw [List.map_cons, List.map_cons, differ, differ, Shift.strictEq_value, ih]

theorem abreast_checkWatch (together : B.Together k host inner inner') (hs : B.Beside k s s') (i : Nat) :
    B.Abreast k s s' id (fun _ => True) (checkWatch host inner i) (checkWatch host inner' i) := by
  unfold checkWatch
  refine Abreast.get_bind ?_
  rw [hs.watches, List.getElem?_map]
  cases hw : s.watches[i]? with
  | none => exact abreast_pure hs rfl trivial
  | some w =>
    have watched := hs.watched w (List.mem_of_getElem? hw)
    dsimp only [Option.map_some, Shift.watch]
    rw [hs.valuesOf, differ_map]
    refine abreast_ite (fun _ => ?_) fun _ => abreast_pure hs rfl trivial
    have seen := hs.modifyWatch i (fun v => { v with snapshot := s.valuesOf w.deps })
      (fun v => { v with snapshot := (s.valuesOf w.deps).map B.shift.value }) (fun _ => rfl)
      fun v hv => ⟨hv.bodies, hv.guards⟩
    exact (abreast_modify seen).bind fun _ t t' _ ht => abreast_fireWatch together ht i watched

theorem abreast_checkWatches (together : B.Together k host inner inner') (hs : B.Beside k s s') :
    B.Abreast k s s' id (fun _ => True) (checkWatches host inner) (checkWatches host inner') := by
  have all (count : Nat) {s s' : State} (hs : B.Beside k s s') (i : Nat) :
      B.Abreast k s s' id (fun _ => True) (checkWatchesFrom host inner i count)
        (checkWatchesFrom host inner' i count) := by
    induction count generalizing s s' i with
    | zero => exact abreast_pure hs rfl trivial
    | succ count ih => exact (abreast_checkWatch together hs i).bind fun _ t t' _ ht => ih ht (i + 1)
  refine Abreast.get_bind ?_
  rw [hs.watches, List.length_map]
  exact all _ hs 0

/-! ## Assignments -/

theorem abreast_assign (hs : B.Beside k s s') (name : String) {v : Value} (hv : B.source.Holds v) :
    B.Abreast k s s' id (fun _ => True) (modify fun s => s.assign name v : Run PUnit)
      (modify fun s => s.assign name (B.shift.value v)) :=
  abreast_modify (hs.assign name hv)

theorem abreast_assignName (hs : B.Beside k s s') (name : String) (mode : AssignMode) {rhs : Value}
    (hrhs : B.source.Holds rhs) :
    B.Abreast k s s' B.shift.value B.source.Holds (assignName name mode rhs)
      (assignName name mode (B.shift.value rhs)) := by
  unfold assignName
  refine Abreast.get_bind ?_
  obtain ⟨hv, hv'⟩ | ⟨v, v', hv, hv', bound⟩ := rel_cases (hs.lookupVariable name)
  · rw [hv, hv']
    refine abreast_ite (fun _ => ?_) fun _ => abreast_throw hs rfl
    have declared := abreast_declare hs name hrhs .varVar (show LifeTime.Fits .forever from trivial)
    refine Abreast.bind (f := id) (P := fun _ => True) (declared.congr rfl rfl) fun _ t t' _ ht => ?_
    exact (abreast_debug ht _ (.same _)).bind fun _ u u' _ hu => abreast_pure hu rfl hrhs
  · rw [hv, hv']
    dsimp only
    rw [bound.mutability, bound.value]
    refine (abreast_ofFault (f := id) (Q := fun _ => True) hs ?_ fun _ _ => trivial).bind fun _ t t' _ ht => ?_
    · cases mode.permitted name v.mutability <;> rfl
    rw [hs.heap, Shift.combine_heap]
    refine (abreast_ofFault ht rfl fun w hw => holds_of_combine scalars hw bound.holds hrhs).bind ?_
    intro w u u' hw hu
    exact (abreast_assign hu name hw).bind fun _ x x' _ hx => abreast_pure hx rfl hw

theorem abreast_container (together : B.Together k host inner inner') (hs : B.Beside k s s') {v : Value}
    (hv : B.source.Holds v) {acc : Accessor} (hacc : acc.Sourced B.source) {accs : List Accessor}
    (haccs : Accessor.AllSourced B.source accs) :
    B.Abreast k s s' (Prod.map B.shift.value B.shift.accessor)
      (fun r => B.source.Holds r.1 ∧ r.2.Sourced B.source) (container host inner v acc accs)
      (container host inner' (B.shift.value v) (B.shift.accessor acc) (B.shift.accessors accs)) := by
  induction accs generalizing v acc s s' with
  | nil => exact abreast_pure hs rfl ⟨hv, hacc⟩
  | cons next more ih =>
    obtain ⟨first, rest⟩ := Accessor.allSourced_cons.1 haccs
    rw [Shift.accessors, container, container]
    refine (abreast_evalKey together acc hs hacc).bind fun key t t' _ ht => Abreast.get_bind ?_
    rw [ht.heap]
    refine (abreast_ofFault ht (Shift.readProperty_heap _ v key)
      fun w hw => ht.filled.readProperty scalars hv hw).bind ?_
    exact fun w u u' hw hu => ih hu hw first rest

theorem abreast_assignProperty (together : B.Together k host inner inner') (hs : B.Beside k s s')
    (name : String) {acc : Accessor} (hacc : acc.Sourced B.source) {accs : List Accessor}
    (haccs : Accessor.AllSourced B.source accs) (mode : AssignMode) {rhs : Value}
    (hrhs : B.source.Holds rhs) :
    B.Abreast k s s' B.shift.value B.source.Holds (assignProperty host inner name acc accs mode rhs)
      (assignProperty host inner' name (B.shift.accessor acc) (B.shift.accessors accs) mode
        (B.shift.value rhs)) := by
  unfold assignProperty
  refine Abreast.get_bind ?_
  obtain ⟨hv, hv'⟩ | ⟨v, v', hv, hv', bound⟩ := rel_cases (hs.lookupVariable name)
  · rw [hv, hv']
    exact abreast_throw hs rfl
  · rw [hv, hv']
    dsimp only
    rw [bound.mutability, bound.value]
    refine abreast_ite (fun _ => .error _ s s' rfl rfl hs) fun _ => ?_
    refine (abreast_container together hs bound.holds hacc haccs).bind ?_
    rintro ⟨target, last⟩ t t' ⟨htarget, hlast⟩ ht
    refine (abreast_evalKey together last ht hlast).bind fun key u u' _ hu => ?_
    cases target with
    | object ref =>
      refine Abreast.get_bind ?_
      have old := hu.filled.lookup scalars htarget key
      rw [hu.heap, id, Shift.lookup_heap, Shift.combine_heap]
      refine (abreast_ofFault hu rfl fun w hw => holds_of_combine scalars hw old hrhs).bind ?_
      intro w x x' hw hx
      refine (abreast_modify (hx.setProperty ref key hw)).bind fun _ y y' _ hy => ?_
      exact abreast_pure hy rfl hw
    | _ => exact abreast_throw hu rfl

theorem abreast_runAssignment (together : B.Together k host inner inner') (hs : B.Beside k s s')
    {a : Assignment} (haccs : Accessor.AllSourced B.source a.accessors)
    (hvalue : ∀ e, a.value = some e → e.Sourced B.source) :
    B.Abreast k s s' B.shift.value B.source.Holds (runAssignment host inner a)
      (runAssignment host inner' (B.shift.assignment a)) := by
  obtain ⟨name, accs, mode, value⟩ := a
  cases accs with
  | nil =>
    cases value with
    | none => exact abreast_assignName hs name mode trivial
    | some e =>
      refine (abreast_eval together e hs (hvalue e rfl)).bind fun v t t' hv ht => ?_
      exact abreast_assignName ht name mode hv
  | cons acc accs =>
    obtain ⟨first, rest⟩ := Accessor.allSourced_cons.1 haccs
    cases value with
    | none => exact abreast_assignProperty together hs name first rest mode trivial
    | some e =>
      refine (abreast_eval together e hs (hvalue e rfl)).bind fun v t t' hv ht => ?_
      exact abreast_assignProperty together ht name first rest mode hv

end Bridge

end Gapscript
