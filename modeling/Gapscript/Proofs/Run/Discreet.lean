import Gapscript.Proofs.Run.Course

/-!
# Runs that do not look at records

The records of a state are only ever added to. A discreet run does the same, and adds the same
records, whatever records there are when it starts. The rules follow the combinators that runs are
built from; with them one pass over the interpreter shows that everything it runs is discreet, if the
functions of its host are.
-/

namespace Gapscript

/-! ## States with earlier records -/

namespace State

/-- The state with some records before its own. -/
def after (earlier : Array Record) (s : State) : State := { s with records := earlier ++ s.records }

/-- The state without its records. -/
def unrecorded (s : State) : State := { s with records := #[] }

variable (earlier : Array Record) (s : State)

@[simp] theorem after_unrecorded : s.unrecorded.after s.records = s := by
  simp [after, unrecorded]

@[simp] theorem record_after (r : Record) : (s.after earlier).record r = (s.record r).after earlier := by
  simp [after, record]

@[simp] theorem modifyTop_after (f : Frame → Frame) :
    (s.after earlier).modifyTop f = (s.modifyTop f).after earlier := by
  have frames : (s.after earlier).frames = s.frames := rfl
  unfold modifyTop
  rw [frames]
  cases s.frames with
  | nil => rfl
  | cons => rfl

@[simp] theorem declare_after (name : String) (v : Value) (m : Mutability) (life : LifeTime) :
    (s.after earlier).declare name v m life = (s.declare name v m life).after earlier :=
  modifyTop_after earlier s _

@[simp] theorem define_after (fn : FunctionRef) :
    (s.after earlier).define fn = (s.define fn).after earlier := modifyTop_after earlier s _

@[simp] theorem declareHoisted_after (name : String) (v : Value) (m : Mutability) (life : LifeTime)
    (line : Int) : (s.after earlier).declareHoisted name v m life line =
      (s.declareHoisted name v m life line).after earlier := by
  unfold declareHoisted
  cases v with
  | function f => exact modifyTop_after earlier { s with hoistedFunctions := f.id :: s.hoistedFunctions } _
  | _ => exact modifyTop_after earlier s _

theorem bindParams_after (params : List String) (args : List Value) :
    bindParams params args (s.after earlier) = (bindParams params args s).after earlier := by
  induction params generalizing args s with
  | nil => rfl
  | cons p params ih =>
    cases args with
    | nil => rfl
    | cons v args => rw [bindParams, bindParams, declare_after, ih]

theorem callableIn_after (strict : Bool) (name : String) (fs : List Frame) :
    (s.after earlier).callableIn strict name fs = s.callableIn strict name fs := by
  have live : (s.after earlier).liveIn = s.liveIn := rfl
  induction fs with
  | nil => rfl
  | cons f fs ih => rw [callableIn, callableIn, live, ih]

@[simp] theorem names_after : (s.after earlier).names = s.names := by
  have values : (fun name => ((s.after earlier).lookupVariable name).map (·.value)) =
      fun name => (s.lookupVariable name).map (·.value) := rfl
  have callees : (fun strict name => (s.after earlier).lookupCallable strict name) =
      fun strict name => s.lookupCallable strict name :=
    funext fun strict => funext fun name => callableIn_after earlier s strict name s.frames
  rw [names, names, values, callees]

@[simp] theorem assign_after (name : String) (v : Value) :
    (s.after earlier).assign name v = (s.assign name v).after earlier := by
  have live : (s.after earlier).liveIn = s.liveIn := rfl
  have same (fs : List Frame) : (s.after earlier).assignIn name v fs = s.assignIn name v fs := by
    induction fs with
    | nil => rfl
    | cons f fs ih => rw [assignIn, assignIn, live, ih]
  have frames : (s.after earlier).frames = s.frames := rfl
  rw [assign, same, frames]
  rfl

theorem room_after : (s.after earlier).room = s.room := by
  have limit : (s.after earlier).maxDepth = s.maxDepth := rfl
  have depth : (s.after earlier).depth = s.depth := rfl
  rw [room, limit, depth, room]

theorem push_after : (s.after earlier).push = s.push.map (after earlier) := by
  have limit : (s.after earlier).maxDepth = s.maxDepth := rfl
  have depth : (s.after earlier).depth = s.depth := rfl
  unfold push
  rw [limit, depth]
  split
  · rfl
  · rfl

theorem pop?_after : (s.after earlier).pop? = s.pop?.map (after earlier) := by
  have depth : (s.after earlier).depth = s.depth := rfl
  have frames : (s.after earlier).frames = s.frames := rfl
  unfold pop?
  rw [depth, frames]
  split
  · rfl
  · rfl

end State

/-! ## The judgment -/

namespace Run

variable {α β : Type} {x y : Run α} {s : State} {earlier : Array Record}

/-- After earlier records, the second run does what the first one does without them. -/
def Echoes (earlier : Array Record) (s : State) (x y : Run α) : Prop :=
  y (s.after earlier) = Pact.concluded id (State.after earlier) (x s)

/-- Whatever was recorded before, the run does the same. -/
def Discreet (x : Run α) : Prop := ∀ earlier s, Echoes earlier s x x

theorem Echoes.bind {f g : α → Run β} (first : Echoes earlier s x y)
    (next : ∀ a t, Echoes earlier t (f a) (g a)) : Echoes earlier s (x >>= f) (y >>= g) := by
  unfold Echoes at first ⊢
  cases run : x s with
  | ok a t =>
    rw [run] at first
    rw [Run.bind_of_ok run, Run.bind_of_ok first]
    exact next a t
  | error e t =>
    rw [run] at first
    rw [Run.bind_of_error run, Run.bind_of_error first]
    rfl

theorem Discreet.bind {f : α → Run β} (first : x.Discreet) (next : ∀ a, (f a).Discreet) :
    (x >>= f).Discreet :=
  fun earlier s => (first earlier s).bind fun a t => next a earlier t

theorem discreet_pure (a : α) : (pure a : Run α).Discreet := fun _ _ => rfl

theorem discreet_throw (e : Error) : (throw e : Run α).Discreet := fun _ _ => rfl

theorem discreet_throw_bind (e : Error) (f : α → Run β) : (throw e >>= f : Run β).Discreet :=
  fun _ _ => rfl

theorem discreet_ofFault (r : Except TypeFault α) : (Run.ofFault r).Discreet := by
  cases r with
  | ok a => exact discreet_pure a
  | error f => exact discreet_throw _

theorem discreet_modifyGet {f : State → α × State}
    (same : ∀ earlier s, f (s.after earlier) = ((f s).1, (f s).2.after earlier)) :
    (modifyGet f : Run α).Discreet := by
  intro earlier s
  have run (t : State) : (modifyGet f : Run α) t = .ok (f t).1 (f t).2 := rfl
  rw [Echoes, run, run, same]
  rfl

theorem discreet_modify {f : State → State}
    (same : ∀ earlier s, f (s.after earlier) = (f s).after earlier) : (modify f : Run PUnit).Discreet :=
  discreet_modifyGet fun earlier s => congrArg (PUnit.unit, ·) (same earlier s)

/-- What reads the state before it goes on may see anything but the records. -/
theorem discreet_get_bind {f : State → Run β}
    (next : ∀ earlier s, Echoes earlier s (f s) (f (s.after earlier))) : (get >>= f : Run β).Discreet :=
  next

theorem Echoes.set_bind {t : State} {f g : PUnit → Run β} (next : Echoes earlier t (f ⟨⟩) (g ⟨⟩)) :
    Echoes earlier s (set t >>= f) (set (t.after earlier) >>= g) := next

theorem Discreet.locate (h : x.Discreet) (pos : Option Position) : (Run.locate pos x).Discreet := by
  intro earlier s
  have same := h earlier s
  unfold Echoes at same ⊢
  unfold Run.locate
  rw [same]
  cases x s with
  | ok a t => rfl
  | error e t => rfl

theorem Discreet.always (h : x.Discreet) {cleanup : State → State}
    (same : ∀ earlier s, cleanup (s.after earlier) = (cleanup s).after earlier) :
    (Run.always cleanup x).Discreet := by
  intro earlier s
  have run := h earlier s
  unfold Echoes at run ⊢
  unfold Run.always
  rw [run]
  cases x s with
  | ok a t => exact congrArg _ (same earlier t)
  | error e t => exact congrArg _ (same earlier t)

theorem discreet_read (p : Names → Reading α) : (Run.read p).Discreet := by
  intro earlier s
  unfold Echoes Run.read
  rw [State.names_after]
  cases Reading.outcome (p s.names) with
  | ok a => rfl
  | error e => rfl

theorem discreet_log (level : Level) (category : Category) (message : String) :
    (Run.log level category message).Discreet :=
  discreet_modify fun earlier s => s.record_after earlier _

theorem discreet_debug (category : Category) (message : String) :
    (Run.debug category message).Discreet := discreet_log .debug category message

theorem discreet_display (v : Value) : (Run.display v).Discreet := fun _ _ => rfl

theorem discreet_leave : Run.leave.Discreet := by
  intro earlier s
  unfold Echoes Run.leave
  rw [State.pop?_after]
  cases s.pop? with
  | none => rfl
  | some t => rfl

theorem Discreet.inFrame (h : x.Discreet) (pos : Option Position) : (Run.inFrame pos x).Discreet := by
  intro earlier s
  unfold Echoes Run.inFrame
  rw [State.push_after]
  cases s.push with
  | error f => rfl
  | ok u =>
    have body := h earlier u
    unfold Echoes at body
    dsimp only [Except.map]
    rw [body]
    cases x u with
    | ok a t => exact discreet_leave.bind (fun _ => discreet_pure a) earlier t
    | error e t => exact discreet_leave.bind (fun _ => discreet_throw e) earlier t

end Run

/-! ## Everything that runs -/

/-- A native function that does the same whatever was recorded before it is called. -/
def HostFunction.Discreet (f : HostFunction) : Prop := ∀ call, (f.handler call).Discreet

/-- The functions of the host are discreet, and so is what runs one frame deeper. -/
structure Inner.Discreet (host : Host) (inner : Inner) : Prop where
  natives : ∀ f ∈ host.functions, f.Discreet
  statements : ∀ collect c, (inner.statements collect c).Discreet
  expression : ∀ e, (inner.expression e).Discreet

section Pass

open Run

variable {host : Host} {inner : Inner}

theorem discreet_runBody (nested : inner.Discreet host) (text : Text) (pos : Position) (block : Bool) :
    (runBody inner text pos block).Discreet := by
  unfold runBody
  split
  · exact (nested.statements false _).bind fun _ => discreet_pure _
  · exact (discreet_read _).bind fun e => nested.expression e

theorem discreet_callFunction (nested : inner.Discreet host) (fn : FunctionRef) (args : List Value)
    (pos : Option Position) :
    (callFunction host inner fn args pos).Discreet := by
  unfold callFunction
  dsimp only
  split
  · exact discreet_throw_bind _ _
  · split
    · next slot arity _ =>
      refine (discreet_debug _ _).bind fun _ => ?_
      split
      · next f known => exact (nested.natives f (Array.mem_of_getElem? known) _).locate pos
      · exact discreet_pure _
    · refine (discreet_debug _ _).bind fun _ => Discreet.inFrame ?_ pos
      have bound : (modify (bindParams fn.code.params args) : Run PUnit).Discreet :=
        discreet_modify fun earlier s => s.bindParams_after earlier _ _
      exact bound.bind fun _ => discreet_runBody nested _ _ _

mutual

theorem discreet_eval (nested : inner.Discreet host) (e : Expr) : (eval host inner e).Discreet := by
  cases e with
  | atom base accs pos =>
    rw [eval]
    exact ((discreet_evalBase nested base).locate _).bind fun v => discreet_evalAccessors nested pos v accs
  | unary op e =>
    rw [eval]
    exact (discreet_eval nested e).bind fun v => discreet_ofFault _
  | binary op l r =>
    rw [eval]
    refine (discreet_eval nested l).bind fun a => ?_
    split
    · exact discreet_pure a
    · exact discreet_pure a
    · refine (discreet_eval nested r).bind fun b => discreet_get_bind fun earlier s => ?_
      exact discreet_ofFault _ earlier s

theorem discreet_evalAll (nested : inner.Discreet host) (es : List Expr) : (evalAll host inner es).Discreet := by
  cases es with
  | nil =>
    rw [evalAll]
    exact discreet_pure []
  | cons e es =>
    rw [evalAll]
    exact (discreet_eval nested e).bind fun v => (discreet_evalAll nested es).bind fun vs => discreet_pure _

theorem discreet_evalBase (nested : inner.Discreet host) (base : Base) : (evalBase host inner base).Discreet := by
  cases base with
  | literal v implicit =>
    rw [evalBase]
    exact discreet_pure v
  | name name v =>
    rw [evalBase]
    exact discreet_pure v
  | call name fn args pos =>
    rw [evalBase]
    exact (discreet_evalAll nested args).bind fun vs => discreet_callFunction nested fn vs _
  | object keys values =>
    rw [evalBase]
    exact (discreet_evalAll nested values).bind fun vs => discreet_modifyGet fun earlier s => rfl
  | array elements =>
    rw [evalBase]
    exact (discreet_evalAll nested elements).bind fun vs => discreet_modifyGet fun earlier s => rfl
  | function fn =>
    rw [evalBase]
    exact discreet_modifyGet fun earlier s => rfl

theorem discreet_evalAccessors (nested : inner.Discreet host) (pos : Position) (v : Value) (accs : List Accessor) :
    (evalAccessors host inner pos v accs).Discreet := by
  cases accs with
  | nil =>
    rw [evalAccessors]
    exact discreet_pure v
  | cons acc accs =>
    rw [evalAccessors]
    refine (discreet_evalKey nested acc).bind fun key => discreet_get_bind fun earlier s => ?_
    have read : (Run.locate (some pos) (Run.ofFault (s.heap.readProperty v key))).Discreet :=
      (discreet_ofFault _).locate _
    exact (read earlier s).bind fun w t => discreet_evalAccessors nested pos w accs earlier t

theorem discreet_evalKey (nested : inner.Discreet host) (acc : Accessor) : (evalKey host inner acc).Discreet := by
  cases acc with
  | dot name =>
    rw [evalKey]
    exact discreet_pure name
  | index e =>
    rw [evalKey]
    exact (discreet_eval nested e).bind fun v => discreet_get_bind fun earlier s => rfl

end

/-! ### Assignments -/

theorem discreet_assignName (name : String) (mode : AssignMode) (rhs : Value) :
    (assignName name mode rhs).Discreet := by
  refine discreet_get_bind fun earlier s => ?_
  have same : (s.after earlier).lookupVariable name = s.lookupVariable name := rfl
  rw [same]
  cases s.lookupVariable name with
  | none =>
    dsimp only
    split
    · rw [State.declare_after]
      have told := discreet_debug .scope ("implicitly declared " ++ name)
      exact Echoes.set_bind (told.bind (fun _ => discreet_pure rhs) earlier _)
    · exact discreet_throw _ earlier s
  | some v =>
    have stored (updated : Value) : (do
        modify fun s => s.assign name updated
        pure updated : Run Value).Discreet :=
      (discreet_modify fun earlier s => s.assign_after earlier name updated).bind fun _ =>
        discreet_pure updated
    have combined := (discreet_ofFault (mode.combine s.heap v.value rhs)).bind stored
    exact (discreet_ofFault (mode.permitted name v.mutability)).bind (fun _ => combined) earlier s

theorem discreet_container (nested : inner.Discreet host) (v : Value) (acc : Accessor)
    (accs : List Accessor) : (container host inner v acc accs).Discreet := by
  induction accs generalizing v acc with
  | nil => exact discreet_pure _
  | cons next more ih =>
    refine (discreet_evalKey nested acc).bind fun key => discreet_get_bind fun earlier s => ?_
    exact (discreet_ofFault (s.heap.readProperty v key)).bind (fun w => ih w next) earlier s

theorem discreet_assignProperty (nested : inner.Discreet host) (name : String) (acc : Accessor)
    (accs : List Accessor) (mode : AssignMode) (rhs : Value) :
    (assignProperty host inner name acc accs mode rhs).Discreet := by
  refine discreet_get_bind fun earlier s => ?_
  have same : (s.after earlier).lookupVariable name = s.lookupVariable name := rfl
  rw [same]
  cases s.lookupVariable name with
  | none => exact discreet_throw _ earlier s
  | some v =>
    dsimp only
    split
    · exact discreet_throw_bind _ _ earlier s
    · refine (discreet_container nested v.value acc accs).bind (fun (target, last) => ?_) earlier s
      refine (discreet_evalKey nested last).bind fun key => ?_
      cases target with
      | object ref =>
        refine discreet_get_bind fun earlier s => ?_
        have stored (updated : Value) : (do
            modify fun s => { s with heap := s.heap.setProperty ref key updated }
            pure updated : Run Value).Discreet :=
          (discreet_modify fun _ _ => rfl).bind fun _ => discreet_pure updated
        exact (discreet_ofFault _).bind stored earlier s
      | _ => exact discreet_throw _

theorem discreet_runAssignment (nested : inner.Discreet host) (a : Assignment) :
    (runAssignment host inner a).Discreet := by
  obtain ⟨name, accs, mode, value⟩ := a
  cases accs with
  | nil =>
    cases value with
    | none => exact discreet_assignName name mode _
    | some e => exact (discreet_eval nested e).bind fun v => discreet_assignName name mode v
  | cons acc accs =>
    cases value with
    | none => exact discreet_assignProperty nested name acc accs mode _
    | some e =>
      exact (discreet_eval nested e).bind fun v => discreet_assignProperty nested name acc accs mode v

/-! ### Blocks, branches and watches -/

theorem discreet_runBlock (nested : inner.Discreet host) (collect : Bool) (body : Cursor) :
    (runBlock inner collect body).Discreet := by
  refine Discreet.inFrame (discreet_get_bind fun earlier s => ?_) _
  exact (discreet_log _ _ _).bind (fun _ => nested.statements collect body) earlier s

theorem discreet_runBranches (nested : inner.Discreet host) (collect : Bool) (bs : List Branch) :
    (runBranches host inner collect bs).Discreet := by
  induction bs with
  | nil => exact discreet_pure none
  | cons b bs ih =>
    rw [runBranches]
    split
    · exact discreet_runBlock nested collect b.body
    · refine (discreet_eval nested _).bind fun v => ?_
      split
      · exact discreet_runBlock nested collect b.body
      · exact ih

theorem discreet_rereadWatch (i : Nat) (w : Watch) : (rereadWatch i w).Discreet := by
  intro earlier s
  unfold Echoes rereadWatch
  rw [State.names_after]
  cases readGuards s.names w.branches w.deps with
  | error e deps => rfl
  | ok bs deps =>
    dsimp only
    split
    · rfl
    · rfl

theorem discreet_fireWatch (nested : inner.Discreet host) (i : Nat) (w : Watch) :
    (fireWatch host inner i w).Discreet := by
  have marked : (modify fun s => s.modifyWatch i fun w => { w with firing := true } : Run PUnit).Discreet :=
    discreet_modify fun _ _ => rfl
  refine marked.bind fun _ => Discreet.always ?_ fun _ _ => rfl
  refine (discreet_debug _ _).bind fun _ => (discreet_rereadWatch i w).bind fun bs => ?_
  exact (discreet_runBranches nested false bs).bind fun _ => discreet_pure _

theorem discreet_checkWatch (nested : inner.Discreet host) (i : Nat) :
    (checkWatch host inner i).Discreet := by
  refine discreet_get_bind fun earlier s => ?_
  have watch : (s.after earlier).watches[i]? = s.watches[i]? := rfl
  have values : (s.after earlier).valuesOf = s.valuesOf := rfl
  rw [watch]
  cases s.watches[i]? with
  | none => exact discreet_pure _ earlier s
  | some w =>
    dsimp only
    rw [values]
    split
    · have seen : (modify fun t => t.modifyWatch i fun v => { v with snapshot := s.valuesOf w.deps } :
          Run PUnit).Discreet := discreet_modify fun _ _ => rfl
      exact seen.bind (fun _ => discreet_fireWatch nested i w) earlier s
    · exact discreet_pure _ earlier s

theorem discreet_checkWatchesFrom (nested : inner.Discreet host) (i count : Nat) :
    (checkWatchesFrom host inner i count).Discreet := by
  induction count generalizing i with
  | zero => exact discreet_pure _
  | succ count ih => exact (discreet_checkWatch nested i).bind fun _ => ih (i + 1)

theorem discreet_checkWatches (nested : inner.Discreet host) : (checkWatches host inner).Discreet :=
  discreet_get_bind fun earlier s => discreet_checkWatchesFrom nested 0 s.watches.length earlier s

/-! ### Statements -/

theorem discreet_reportValue (debug : Bool) (line : Int) (label : String) (v : Value) :
    (reportValue debug line label v).Discreet := by
  unfold reportValue
  split
  · exact discreet_get_bind fun earlier s => discreet_log _ _ _ earlier s
  · exact discreet_pure _

theorem discreet_runDeclaration (nested : inner.Discreet host) (line : Int) (h : Header) (value : Expr)
    (debug : Bool) : (runDeclaration host inner line h value debug).Discreet := by
  unfold runDeclaration
  split
  · exact discreet_debug _ _
  · refine (discreet_eval nested value).bind fun v => ?_
    refine (discreet_modify fun earlier s => s.declare_after earlier _ _ _ _).bind fun _ => ?_
    refine (discreet_display v).bind fun text => (discreet_debug _ _).bind fun _ => ?_
    exact discreet_reportValue _ _ _ _

theorem discreet_perform (nested : inner.Discreet host) (collect : Bool) (line : Int) (st : Statement) :
    (perform host inner collect line st).Discreet := by
  cases st with
  | declaration h value debug =>
    exact (discreet_runDeclaration nested line h value debug).bind fun _ => discreet_pure _
  | assignment a debug =>
    refine (discreet_runAssignment nested a).bind fun v => ?_
    exact (discreet_reportValue _ _ _ _).bind fun _ => discreet_pure _
  | block body => exact (discreet_runBlock nested collect body).bind fun _ => discreet_pure _
  | conditional bs => exact (discreet_runBranches nested collect bs).bind fun _ => discreet_pure _
  | watch bs deps =>
    refine (discreet_modify fun _ _ => rfl).bind fun _ => ?_
    exact (discreet_debug _ _).bind fun _ => discreet_pure _
  | function fn =>
    have defined : (modify fun s => (s.newFunction fn).2.define (s.newFunction fn).1 : Run PUnit).Discreet :=
      discreet_modify fun earlier s => State.define_after earlier (s.newFunction fn).2 _
    exact defined.bind fun _ => (discreet_debug _ _).bind fun _ => discreet_pure _
  | giveBack value debug =>
    have returning (v : Value) : (do
        Run.debug .function ("return " ++ (← Run.display v))
        reportValue debug line "return" v
        pure (.returned v) : Run Flow).Discreet :=
      (discreet_display v).bind fun text => (discreet_debug _ _).bind fun _ =>
        (discreet_reportValue _ _ _ _).bind fun _ => discreet_pure _
    cases value with
    | none => exact returning .undefined
    | some e => exact (discreet_eval nested e).bind returning
  | call value debug =>
    refine (discreet_eval nested value).bind fun v => ?_
    exact (discreet_reportValue _ _ _ _).bind fun _ => discreet_pure _
  | expression value debug =>
    refine (discreet_eval nested value).bind fun v => ?_
    exact (discreet_reportValue _ _ _ _).bind fun _ => discreet_pure _

theorem discreet_runStatement (nested : inner.Discreet host) (collect : Bool) (c : Cursor) :
    (runStatement host inner collect c).Discreet := by
  refine (discreet_modify fun _ _ => rfl).bind fun _ => discreet_get_bind fun earlier s => ?_
  rw [State.names_after]
  split
  · exact discreet_throw _ earlier s
  · next stmt d _ =>
    refine (discreet_perform nested collect _ stmt).bind (fun flow => ?_) earlier s
    exact (discreet_debug _ _).bind fun _ => discreet_pure _

theorem discreet_bindHoist (nested : inner.Discreet host) (h : Hoist) :
    (bindHoist host inner h).Discreet := by
  refine (discreet_read _).bind fun (e, _) => ((discreet_eval nested e).locate _).bind fun v => ?_
  refine (discreet_modify fun earlier s => s.declareHoisted_after earlier _ _ _ _ _).bind fun _ => ?_
  exact (discreet_display v).bind fun text => discreet_debug _ _

theorem discreet_bindHoists (nested : inner.Discreet host) (line : Int) (hs : List Hoist) :
    (bindHoists host inner line hs).Discreet := by
  induction hs with
  | nil => exact discreet_pure []
  | cons h hs ih =>
    rw [bindHoists]
    split
    · exact ih.bind fun _ => discreet_pure _
    · exact (discreet_bindHoist nested h).bind fun _ => ih.bind fun _ => discreet_pure _

theorem discreet_bindDue (nested : inner.Discreet host) (hs : List Hoist) (c : Cursor) :
    (bindDue host inner hs c).Discreet := by
  unfold bindDue
  split
  · exact discreet_pure []
  · exact (discreet_modify fun _ _ => rfl).bind fun _ => (discreet_bindHoists nested _ _).locate _

theorem discreet_collectValue (collect : Bool) (flow : Flow) : (collectValue collect flow).Discreet := by
  unfold collectValue
  split
  · split
    · exact discreet_modify fun _ _ => rfl
    · exact discreet_pure _
  · exact discreet_pure _

theorem discreet_statementLoop (nested : inner.Discreet host) (collect : Bool) (fuel : Nat)
    (hs : List Hoist) (c : Cursor) : (statementLoop host inner collect fuel hs c).Discreet := by
  induction fuel generalizing hs c with
  | zero => exact discreet_throw _
  | succ fuel ih =>
    rw [statementLoop]
    split
    · exact discreet_pure none
    · refine (discreet_bindDue nested hs _).bind fun hs => ?_
      refine ((discreet_runStatement nested collect _).locate _).bind fun (flow, d) => ?_
      refine (discreet_collectValue collect flow).bind fun _ => ?_
      split
      · exact discreet_pure _
      · exact (discreet_checkWatches nested).bind fun _ => ih hs d

theorem discreet_runStatements (nested : inner.Discreet host) (collect : Bool) (c : Cursor) :
    (runStatements host inner collect c).Discreet := discreet_statementLoop nested collect _ _ c

end Pass

/-! ## Whole runs -/

section Whole

open Run

variable {host : Host} (natives : ∀ f ∈ host.functions, f.Discreet)

include natives

theorem discreet_innerAt (n : Nat) : (innerAt host n).Discreet host := by
  induction n with
  | zero =>
    refine ⟨natives, ?_, ?_⟩
    · intro collect c
      unfold innerAt statementsAt
      exact discreet_throw _
    · intro e
      unfold innerAt valueAt
      exact discreet_throw _
  | succ n ih =>
    refine ⟨natives, ?_, ?_⟩
    · intro collect c
      unfold innerAt statementsAt
      exact discreet_runStatements ih collect c
    · intro e
      unfold innerAt valueAt
      exact discreet_eval ih e

theorem discreet_runSource (c : Cursor) : (runSource host c).Discreet := by
  intro earlier s
  unfold Echoes runSource
  rw [State.room_after]
  exact discreet_runStatements (discreet_innerAt natives s.room) true c earlier s

theorem discreet_runExpression (e : Expr) : (runExpression host e).Discreet := by
  intro earlier s
  unfold Echoes runExpression
  rw [State.room_after]
  exact discreet_eval (discreet_innerAt natives s.room) e earlier s

theorem discreet_runCall (fn : FunctionRef) (args : List Value) : (runCall host fn args).Discreet := by
  intro earlier s
  unfold Echoes runCall
  rw [State.room_after]
  exact discreet_callFunction (discreet_innerAt natives s.room) fn args none earlier s

theorem discreet_runWatches : (runWatches host).Discreet := by
  intro earlier s
  unfold Echoes runWatches
  rw [State.room_after]
  exact discreet_checkWatches (discreet_innerAt natives s.room) earlier s

end Whole

end Gapscript
