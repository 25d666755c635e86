import Gapscript.Proofs.Expr.Throughout
import Gapscript.Proofs.Reading.WellFormed
import Gapscript.Proofs.Run.Journey

/-!
# Simple statements fail without a trace

What expressions without calls change is fresh: objects that nothing refers to yet and numbers for new
functions. A declaration, an assignment, a function definition, a return and a bare expression evaluate all
they have to evaluate, and make all their checks, before they write anything. So if one of them fails, bindings,
values, properties, watches and what the program has written are as before it
(`failed_statements_leave_no_trace`).
-/

namespace Gapscript

/-! ## Growing states -/

/-- The objects of the first heap are on the second one as they were. -/
structure Heap.Extends (h h' : Heap) : Prop where
  size : h.objects.size ≤ h'.objects.size
  get : ∀ ref < h.objects.size, h'.get ref = h.get ref

/-- The second state differs from the first one by objects and numbers that the first one did not use. -/
structure State.Grown (s t : State) : Prop where
  heap : s.heap.Extends t.heap
  identities : s.identities ≤ t.identities
  rest : t = { s with heap := t.heap, identities := t.identities }

namespace State.Grown

theorem refl (s : State) : s.Grown s := ⟨⟨Nat.le_refl _, fun _ _ => rfl⟩, Nat.le_refl _, rfl⟩

theorem trans {s t u : State} (h : s.Grown t) (h' : t.Grown u) : s.Grown u where
  heap := by
    refine ⟨Nat.le_trans h.heap.size h'.heap.size, fun ref known => ?_⟩
    rw [h'.heap.get ref (Nat.lt_of_lt_of_le known h.heap.size), h.heap.get ref known]
  identities := Nat.le_trans h.identities h'.identities
  rest := by
    rw [h'.rest, h.rest]

theorem newObject (s : State) (o : Object) : s.Grown (s.newObject o).2 where
  heap := by
    refine ⟨?_, fun ref known => ?_⟩
    · simp [State.newObject, Heap.alloc]
    · simp [State.newObject, Heap.alloc, Heap.get, Array.getElem?_push, Nat.ne_of_lt known]
  identities := Nat.le_refl _
  rest := rfl

theorem newFunction (s : State) (fn : Function) : s.Grown (s.newFunction fn).2 where
  heap := ⟨Nat.le_refl _, fun _ _ => rfl⟩
  identities := Nat.le_succ _
  rest := rfl

end State.Grown

/-! ## Runs that grow the state, and runs that fail without a trace -/

/-- Whatever its outcome, the run only grows the state. -/
def Run.Grows {α : Type} (x : Run α) (s : State) : Prop := s.Grown (x.reached s)

/-- If the run fails, it has only grown the state. -/
def Run.Atomic {α : Type} (x : Run α) (s : State) : Prop := ∀ e t, x s = .error e t → s.Grown t

/-- The run does not fail. -/
def Run.Sure {α : Type} (x : Run α) : Prop := ∀ s, ∃ a t, x s = .ok a t

namespace Run

variable {α β : Type} {s : State} {x : Run α} {f : α → Run β}

theorem grows_pure (a : α) : (pure a : Run α).Grows s := .refl s

theorem grows_throw (e : Error) : (throw e : Run α).Grows s := .refl s

theorem grows_ofFault (r : Except TypeFault α) : (Run.ofFault r).Grows s := by
  cases r with
  | ok a => exact grows_pure a
  | error f => exact grows_throw _

theorem Grows.locate (h : x.Grows s) (pos : Option Position) : (Run.locate pos x).Grows s := by
  unfold Run.Grows Run.reached Run.locate at *
  cases run : x s with
  | ok a t | error e t => rwa [run] at h

theorem Grows.of_ok (h : x.Grows s) {a : α} {t : State} (run : x s = .ok a t) : s.Grown t := by
  unfold Run.Grows Run.reached at h
  rwa [run] at h

theorem Grows.atomic (h : x.Grows s) : x.Atomic s := by
  intro e t run
  unfold Run.Grows Run.reached at h
  rwa [run] at h

/-- Two runs in sequence; the second starts from what the first ended with. -/
theorem Grows.bind (h : x.Grows s) (hf : ∀ a t, (f a).Grows t) : (x >>= f).Grows s := by
  unfold Run.Grows
  rcases Run.reached_bind x f s with ⟨a, t, run, same⟩ | same
  · rw [same]
    exact (h.of_ok run).trans (hf a t)
  · rw [same]
    exact h

theorem Grows.get_bind {f : State → Run α} (h : (f s).Grows s) : (get >>= f : Run α).Grows s := h

theorem Atomic.get_bind {f : State → Run α} (h : (f s).Atomic s) : (get >>= f : Run α).Atomic s := h

/-- A run that fails without a trace may come after one that only grows the state. -/
theorem Grows.bind_atomic (h : x.Grows s) (hf : ∀ a t, x s = .ok a t → (f a).Atomic t) :
    (x >>= f).Atomic s := by
  intro e t run
  cases first : x s with
  | ok a u =>
    rw [Run.bind_of_ok first] at run
    exact (h.of_ok first).trans (hf a u first e t run)
  | error e' u =>
    rw [Run.bind_of_error first] at run
    cases run
    exact h.atomic _ _ first

/-- After what fails without a trace, nothing may fail. -/
theorem Atomic.bind_sure (h : x.Atomic s) (hf : ∀ a, (f a).Sure) : (x >>= f).Atomic s := by
  intro e t run
  cases first : x s with
  | ok a u =>
    obtain ⟨b, v, ok⟩ := hf a u
    rw [Run.bind_of_ok first, ok] at run
    cases run
  | error e' u =>
    rw [Run.bind_of_error first] at run
    cases run
    exact h _ _ first

theorem Sure.atomic (h : x.Sure) : x.Atomic s := by
  intro e t run
  obtain ⟨a, u, ok⟩ := h s
  rw [ok] at run
  cases run

theorem Sure.bind (h : x.Sure) (hf : ∀ a, (f a).Sure) : (x >>= f).Sure := by
  intro s
  obtain ⟨a, t, run⟩ := h s
  rw [Run.bind_of_ok run]
  exact hf a t

theorem sure_pure (a : α) : (pure a : Run α).Sure := fun s => ⟨a, s, rfl⟩

theorem sure_modify (f : State → State) : (modify f : Run PUnit).Sure := fun s => ⟨⟨⟩, f s, rfl⟩

theorem sure_log (level : Level) (category : Category) (message : String) :
    (Run.log level category message).Sure := sure_modify _

theorem sure_display (v : Value) : (Run.display v).Sure := fun s => ⟨_, s, rfl⟩

end Run

theorem sure_reportValue (debug : Bool) (line : Int) (label : String) (v : Value) :
    (reportValue debug line label v).Sure := by
  unfold reportValue
  split
  · exact fun s => Run.sure_log _ _ _ s
  · exact Run.sure_pure _

/-! ## Expressions without calls -/

/-- The base is a call. -/
def Base.isCall : Base → Bool
  | .call .. => true
  | _ => false

/-- No call stands in the tree. -/
def Expr.CallFree (e : Expr) : Prop := e.Throughout fun b => b.isCall = false

theorem Accessor.allThroughout_cons {P : Base → Prop} {acc : Accessor} {accs : List Accessor} :
    Accessor.AllThroughout P (acc :: accs) ↔
      (∀ e, acc.tree? = some e → e.Throughout P) ∧ Accessor.AllThroughout P accs := by
  cases acc with
  | dot name => simp [Accessor.AllThroughout, Accessor.tree?]
  | index e => simp [Accessor.AllThroughout, Accessor.tree?]

section Eval

open Run

variable {host : Host} {inner : Inner}

mutual

theorem grows_eval (e : Expr) (h : e.CallFree) (s : State) : (eval host inner e).Grows s := by
  rw [Expr.CallFree] at h
  cases e with
  | atom b accs pos =>
    rw [Expr.Throughout] at h
    rw [eval]
    refine ((grows_evalBase b h.1 s).locate (some pos)).bind fun v t => ?_
    exact grows_evalAccessors pos v accs h.2 t
  | unary op e =>
    rw [Expr.Throughout] at h
    rw [eval]
    exact (grows_eval e h s).bind fun v t => grows_ofFault _
  | binary op l r =>
    rw [Expr.Throughout] at h
    rw [eval]
    refine (grows_eval l h.1 s).bind fun a t => ?_
    split
    · exact grows_pure a
    · exact grows_pure a
    · exact (grows_eval r h.2 t).bind fun b u => grows_ofFault (s := u) _

theorem grows_evalAll (es : List Expr) (h : Expr.AllThroughout (fun b => b.isCall = false) es) (s : State) :
    (evalAll host inner es).Grows s := by
  cases es with
  | nil =>
    rw [evalAll]
    exact grows_pure []
  | cons e es =>
    rw [Expr.AllThroughout] at h
    rw [evalAll]
    refine (grows_eval e h.1 s).bind fun v t => ?_
    exact (grows_evalAll es h.2 t).bind fun vs u => grows_pure _

theorem grows_evalBase (b : Base) (h : b.Throughout fun b => b.isCall = false) (s : State) :
    (evalBase host inner b).Grows s := by
  cases b with
  | literal v implicit | name name v =>
    rw [evalBase]
    exact grows_pure v
  | call name fn args pos =>
    have other : Base.isCall (.call name fn args pos) = false := h.self
    cases other
  | object keys values =>
    rw [Base.Throughout] at h
    rw [evalBase]
    exact (grows_evalAll values h.2 s).bind fun vs t => State.Grown.newObject t _
  | array elements =>
    rw [Base.Throughout] at h
    rw [evalBase]
    exact (grows_evalAll elements h.2 s).bind fun vs t => State.Grown.newObject t _
  | function fn =>
    rw [evalBase]
    exact State.Grown.newFunction s fn

theorem grows_evalAccessors (pos : Position) (v : Value) (accs : List Accessor)
    (h : Accessor.AllThroughout (fun b => b.isCall = false) accs) (s : State) :
    (evalAccessors host inner pos v accs).Grows s := by
  cases accs with
  | nil =>
    rw [evalAccessors]
    exact grows_pure v
  | cons acc accs =>
    obtain ⟨first, rest⟩ := Accessor.allThroughout_cons.1 h
    rw [evalAccessors]
    refine (grows_evalKey acc first s).bind fun key t => Grows.get_bind ?_
    exact ((grows_ofFault _).locate (some pos)).bind fun v u => grows_evalAccessors pos v accs rest u

theorem grows_evalKey (acc : Accessor) (h : ∀ e, acc.tree? = some e → e.CallFree) (s : State) :
    (evalKey host inner acc).Grows s := by
  cases acc with
  | dot name =>
    rw [evalKey]
    exact grows_pure name
  | index e =>
    rw [evalKey]
    exact (grows_eval e (h e rfl) s).bind fun v t => State.Grown.refl t

end

/-! ## Assignments -/

theorem atomic_assignName (name : String) (mode : AssignMode) (rhs : Value) (s : State) :
    (assignName name mode rhs).Atomic s := by
  unfold assignName
  refine Atomic.get_bind ?_
  cases s.lookupVariable name with
  | none =>
    dsimp only
    split
    · have declared : (set (s.declare name rhs .varVar .forever) : Run PUnit).Sure := fun u => ⟨⟨⟩, _, rfl⟩
      exact (declared.bind fun _ => (sure_log _ _ _).bind fun _ => sure_pure rhs).atomic
    · exact (grows_throw _).atomic
  | some v =>
    refine (grows_ofFault _).bind_atomic fun _ t _ => (grows_ofFault _).bind_atomic fun updated u _ => ?_
    exact ((sure_modify _).bind fun _ => sure_pure updated).atomic

theorem grows_container (accs : List Accessor) (v : Value) (acc : Accessor)
    (h : ∀ a ∈ acc :: accs, ∀ e, a.tree? = some e → e.CallFree) (s : State) :
    (container host inner v acc accs).Grows s := by
  induction accs generalizing v acc s with
  | nil => exact grows_pure (v, acc)
  | cons next more ih =>
    obtain ⟨first, rest⟩ := List.forall_mem_cons.1 h
    refine (grows_evalKey acc first s).bind fun key t => Grows.get_bind ?_
    exact (grows_ofFault _).bind fun v u => ih v next rest u

/-- The accessor that is left when the others have been followed is one of them. -/
theorem mem_of_container {accs : List Accessor} {v target : Value} {acc last : Accessor} {s t : State}
    (run : container host inner v acc accs s = .ok (target, last) t) : last ∈ acc :: accs := by
  induction accs generalizing v acc s with
  | nil =>
    cases run
    exact List.mem_cons_self
  | cons next more ih =>
    obtain ⟨key, u, -, run⟩ := Run.bind_eq_ok.1 run
    rw [Run.get_bind] at run
    obtain ⟨v', u', -, run⟩ := Run.bind_eq_ok.1 run
    exact List.mem_cons_of_mem _ (ih run)

theorem atomic_assignProperty (name : String) (acc : Accessor) (accs : List Accessor)
    (h : ∀ a ∈ acc :: accs, ∀ e, a.tree? = some e → e.CallFree) (mode : AssignMode) (rhs : Value) (s : State) :
    (assignProperty host inner name acc accs mode rhs).Atomic s := by
  unfold assignProperty
  refine Atomic.get_bind ?_
  cases s.lookupVariable name with
  | none => exact (grows_throw _).atomic
  | some v =>
    dsimp only
    cases v.mutability.editable with
    | false => exact (grows_throw _).atomic
    | true =>
      refine (grows_container accs v.value acc h s).bind_atomic fun r t followed => ?_
      obtain ⟨target, last⟩ := r
      have key := h last (mem_of_container followed)
      refine (grows_evalKey last key t).bind_atomic fun key u _ => ?_
      cases target with
      | object ref =>
        refine Atomic.get_bind ((grows_ofFault _).bind_atomic fun updated w _ => ?_)
        exact ((sure_modify _).bind fun _ => sure_pure updated).atomic
      | _ => exact (grows_throw _).atomic

/-- Stores a value where the assignment says. -/
def store (host : Host) (inner : Inner) (a : Assignment) (rhs : Value) : Run Value :=
  match a.accessors with
  | [] => assignName a.name a.mode rhs
  | acc :: accs => assignProperty host inner a.name acc accs a.mode rhs

theorem atomic_store (a : Assignment) (path : ∀ acc ∈ a.accessors, ∀ e, acc.tree? = some e → e.CallFree)
    (rhs : Value) (s : State) : (store host inner a rhs).Atomic s := by
  unfold store
  cases accs : a.accessors with
  | nil => exact atomic_assignName a.name a.mode rhs s
  | cons acc accs' =>
    rw [accs] at path
    exact atomic_assignProperty a.name acc accs' path a.mode rhs s

theorem atomic_runAssignment (a : Assignment)
    (path : ∀ acc ∈ a.accessors, ∀ e, acc.tree? = some e → e.CallFree)
    (value : ∀ e, a.value = some e → e.CallFree) (s : State) : (runAssignment host inner a).Atomic s := by
  unfold runAssignment
  cases right : a.value with
  | none => exact (grows_pure _).bind_atomic fun rhs t _ => atomic_store a path rhs t
  | some e => exact (grows_eval e (value e right) s).bind_atomic fun rhs t _ => atomic_store a path rhs t

/-! ## Statements -/

theorem atomic_runDeclaration (line : Int) (h : Header) {value : Expr} (plain : value.CallFree) (debug : Bool)
    (s : State) : (runDeclaration host inner line h value debug).Atomic s := by
  unfold runDeclaration
  split
  · exact Sure.atomic (sure_log _ _ _)
  · refine (grows_eval value plain s).bind_atomic fun v t _ => Sure.atomic ?_
    refine (sure_modify _).bind fun _ => (sure_display v).bind fun text => ?_
    exact (sure_log _ _ _).bind fun _ => sure_reportValue debug line h.name v

end Eval

/-- The statement is a declaration, an assignment, a function definition, a return or a bare expression. -/
def Statement.isSimple : Statement → Bool
  | .declaration .. | .assignment .. | .function _ | .giveBack .. | .expression .. => true
  | .block _ | .conditional _ | .watch .. | .call .. => false

/-- No call stands in the trees that the statement evaluates. -/
def Statement.CallFree (stmt : Statement) : Prop := ∀ e ∈ stmt.trees, e.CallFree

section Statements

open Run

variable {host : Host} {inner : Inner}

theorem atomic_perform (collect : Bool) (line : Int) {stmt : Statement} (simple : stmt.isSimple = true)
    (plain : stmt.CallFree) (s : State) : (perform host inner collect line stmt).Atomic s := by
  cases stmt with
  | block body | conditional bs | watch bs deps | call value debug => cases simple
  | declaration h value debug =>
    have initializer : value.CallFree := plain value List.mem_cons_self
    exact (atomic_runDeclaration line h initializer debug s).bind_sure fun _ => sure_pure _
  | assignment a debug =>
    have path : ∀ acc ∈ a.accessors, ∀ e, acc.tree? = some e → e.CallFree := fun acc among e inside =>
      plain e (List.mem_append_left _ (List.mem_filterMap.2 ⟨acc, among, inside⟩))
    have value : ∀ e, a.value = some e → e.CallFree := fun e right =>
      plain e (List.mem_append_right _ (Option.mem_toList.2 right))
    refine (atomic_runAssignment a path value s).bind_sure fun v => ?_
    exact (sure_reportValue debug line a.name v).bind fun _ => sure_pure _
  | function fn =>
    exact ((sure_modify _).bind fun _ => (sure_log _ _ _).bind fun _ => sure_pure _).atomic
  | giveBack value debug =>
    have rest (v : Value) : (do
        Run.debug .function ("return " ++ (← Run.display v))
        reportValue debug line "return" v
        pure (.returned v) : Run Flow).Sure :=
      (sure_display v).bind fun _ => (sure_log _ _ _).bind fun _ =>
        (sure_reportValue debug line "return" v).bind fun _ => sure_pure _
    unfold perform
    cases value with
    | none => exact (grows_pure _).bind_atomic fun v t _ => (rest v).atomic
    | some e => exact (grows_eval e (plain e List.mem_cons_self) s).bind_atomic fun v t _ => (rest v).atomic
  | expression value debug =>
    refine (grows_eval value (plain value List.mem_cons_self) s).bind_atomic fun v t _ => Sure.atomic ?_
    exact (sure_reportValue debug line "" v).bind fun _ => sure_pure _

/-- Simple statements without calls are atomic. If the text under the cursor is read as one, or as no
statement at all, and running it fails, then the state is the one before it on another line, with nothing
changed but objects and numbers that were not in use. -/
theorem failed_statements_leave_no_trace {collect : Bool} {c : Cursor} {s t : State} {e : Error}
    (simple : ∀ stmt d, statement ⟨{ s with line := c.pos.line }.names, host.endCloses⟩ c = .ok (stmt, d) →
      stmt.isSimple = true ∧ stmt.CallFree)
    (failed : runStatement host inner collect c s = .error e t) :
    ∃ heap identities, s.heap.Extends heap ∧ s.identities ≤ identities ∧
      t = { s with line := c.pos.line, heap := heap, identities := identities } := by
  unfold runStatement at failed
  rw [Run.modify_bind, Run.get_bind] at failed
  have grown : State.Grown { s with line := c.pos.line } t := by
    cases read : statement ⟨{ s with line := c.pos.line }.names, host.endCloses⟩ c with
    | error e' =>
      rw [read] at failed
      cases failed
      exact .refl _
    | ok r =>
      obtain ⟨stmt, d⟩ := r
      obtain ⟨simple, plain⟩ := simple stmt d read
      rw [read] at failed
      refine (atomic_perform collect c.pos.line simple plain _).bind_sure (fun flow => ?_) e t failed
      exact (sure_log _ _ _).bind fun _ => sure_pure _
  exact ⟨t.heap, t.identities, grown.heap, grown.identities, grown.rest⟩

end Statements

/-- A state with a variable that holds `null`. -/
def holdingNull : State := ({} : State).declare "x" .null .varVar .forever

/-- An assignment to a property that cannot be reached, with new objects on its right side. -/
def unreachableTarget : Cursor := ⟨"x.a.b = {c: [1n]}!".toList, {}⟩

theorem failed_statements_leave_no_trace_null :
    ∃ e t, runStatement ⟨#[], false⟩ (innerAt ⟨#[], false⟩ 0) true unreachableTarget holdingNull = .error e t ∧
      t.heap.objects.size = 2 ∧
      ∃ heap identities, holdingNull.heap.Extends heap ∧ holdingNull.identities ≤ identities ∧
        t = { holdingNull with line := 1, heap := heap, identities := identities } := by
  have read : statement ⟨{ holdingNull with line := 1 }.names, false⟩ unreachableTarget =
      .ok (.assignment ⟨"x", [.dot "a", .dot "b"], .plain,
        some (.atom
          (.object ["c"] [.atom
            (.array [.atom (.literal (.bigint 1) false) [] { column := 14, offset := 13 }]) []
            { column := 13, offset := 12 }]) []
          { column := 9, offset := 8 })⟩ false, ⟨[], { column := 19, offset := 18 }⟩) := by rfl
  have failed : ((runStatement ⟨#[], false⟩ (innerAt ⟨#[], false⟩ 0) true unreachableTarget).failure?
      holdingNull).isSome = true := by rfl
  have allocated : ((runStatement ⟨#[], false⟩ (innerAt ⟨#[], false⟩ 0) true unreachableTarget).reached
      holdingNull).heap.objects.size = 2 := by rfl
  obtain ⟨e, he⟩ := Option.isSome_iff_exists.1 failed
  obtain ⟨t, run⟩ := Run.failure?_eq_some.1 he
  rw [Run.reached, run] at allocated
  refine ⟨e, t, run, allocated, failed_statements_leave_no_trace (fun stmt d h => ?_) run⟩
  cases read.symm.trans h
  refine ⟨rfl, List.forall_mem_singleton.2 ?_⟩
  simp [Expr.CallFree, Expr.Throughout, Base.Throughout, Expr.AllThroughout, Accessor.AllThroughout, Base.isCall]

end Gapscript
