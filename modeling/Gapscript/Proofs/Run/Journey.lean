import Gapscript.Proofs.Run.Frames

/-!
# Journeys

A run leads through moments: states, together with the watches that are being fired in them. `Moves`
says what can happen between one moment and the next, and under which conditions: a variable is
declared or assigned, a property is written, a frame is entered or left, a watch is added, fired or
put to rest, or something happens that concerns neither variables nor watches. A `Journey` is a
sequence of such moves with what each of them did, and `x.Leads` is the judgment that a run makes
one, whatever its outcome.
-/

namespace Gapscript

/-! ## Moments -/

/-- A watch that is being fired, by its place in the list of watches, and the depth of the frame in
which it was found to have changed. -/
structure Firing where
  index : Nat
  depth : Nat
deriving DecidableEq

/-- A state, and the watches that are being fired in it, the innermost first. -/
structure Moment where
  state : State
  firings : List Firing

/-- The places of the watches that are being fired. -/
def Moment.fired (m : Moment) : List Nat := m.firings.map (·.index)

/-- What a move does. Heights are those of the frames that it concerns. -/
inductive Deed where
  | other
  | declare (height : Nat) (name : String)
  | assign (name : String) (mode : AssignMode)
  | write (root : Variable) (ref : Nat) (key : String)
  | watch
  | enter
  | leave (height : Nat)
  | fire (index : Nat)
  | depend (index : Nat)
  | rest (index : Nat)

/-- The deed declares nothing below a height and leaves only frames above it. -/
def Deed.Above (height : Nat) : Deed → Prop
  | .declare h _ => height ≤ h
  | .leave h => height < h
  | _ => True

theorem Deed.Above.mono {low high : Nat} (h : low ≤ high) {d : Deed} (above : d.Above high) : d.Above low := by
  cases d with
  | declare k name => exact Nat.le_trans h above
  | leave k => exact Nat.lt_of_le_of_lt h above
  | _ => trivial

/-- One change to the state that concerns neither variables nor watches nor the height of the
stack. -/
inductive Quiet (host : Host) : State → State → Prop
  | line (s : State) (line : Int) : Quiet host s { s with line := line }
  | record (s : State) (r : Record) : Quiet host s (s.record r)
  | define (s : State) (fn : FunctionRef) : Quiet host s (s.define fn)
  | newObject (s : State) (o : Object) : Quiet host s (s.newObject o).2
  | newFunction (s : State) (fn : Function) : Quiet host s (s.newFunction fn).2
  | produce (s : State) (v : Value) : Quiet host s { s with produced := s.produced.push v }
  | native (s : State) (f : HostFunction) (call : Invocation) (known : f ∈ host.functions) :
    Quiet host s (Run.reached (f.handler call) s)

/-- Two states have the same frames and the same watches. -/
structure State.SameBindings (s t : State) : Prop where
  frames : t.frames = s.frames
  depth : t.depth = s.depth
  limit : t.maxDepth = s.maxDepth
  watches : t.watches = s.watches

/-- A native function that leaves frames and watches as they are when it is called in a balanced
state. -/
def HostFunction.KeepsBindings (f : HostFunction) : Prop :=
  f.Obeys State.Balanced State.SameBindings fun _ => True

theorem State.sameStack_bindParams {s : State} (hs : s.Balanced) (params : List String)
    (args : List Value) : s.SameStack (bindParams params args s) := by
  induction params generalizing args s with
  | nil => exact .refl s
  | cons p ps ih =>
    cases args with
    | nil => exact .refl s
    | cons v vs =>
      have first : s.SameStack (s.declare p v .varVar .forever) := State.sameStack_modifyTop hs _
      exact first.trans (ih (first.balanced hs) vs)

theorem State.SameBindings.sameStack {s t : State} (h : s.SameBindings t) : s.SameStack t :=
  ⟨congrArg List.length h.frames, h.depth, h.limit⟩

/-- An access path that starts at a variable has been followed to a property of an object: the
accessors before the last led from the value of the variable to the object, and the last one gave
the key. -/
def Access (host : Host) (root : Variable) (ref : Nat) (key : String) (s : State) : Prop :=
  ∃ (inner : Inner) (name : String) (first : State) (acc : Accessor) (accs : List Accessor)
    (last : Accessor) (mid : State),
    first.lookupVariable name = some root ∧
      container host inner root.value acc accs first = .ok (.object ref, last) mid ∧
      evalKey host inner last mid = .ok key s

/-- The state with a message about bindings. -/
def State.announce (s : State) (message : String) : State :=
  s.record { level := .debug, category := .scope, message := message }

theorem State.SameStack.announce {s t : State} (h : s.SameStack t) (message : String) :
    s.SameStack (t.announce message) := h.trans (t.sameStack_record _)

/-- The state in which the watch of an index is fired: it has seen the values that its variables have
now, and is marked. -/
def State.firing (s : State) (i : Nat) (w : Watch) : State :=
  let seen := s.modifyWatch i fun v => { v with snapshot := s.valuesOf w.deps }
  (seen.modifyWatch i fun v => { v with firing := true }).record
    { level := .debug, category := .watch
      message := "watch from line " ++ toString w.line ++ " triggered" }

/-- What happens between one moment and the next. Declaring a variable and firing a watch leave a
record. -/
inductive Moves (host : Host) : Moment → Deed → Moment → Prop
  | other {s t : State} (fs : List Firing) (quiet : Quiet host s t) : Moves host ⟨s, fs⟩ .other ⟨t, fs⟩
  | declare (s : State) (fs : List Firing) (h : Header) (v : Value) :
    Moves host ⟨s, fs⟩ (.declare s.depth h.name)
      ⟨(s.declare h.name v h.mutability h.life).announce
        ("declared " ++ h.mutability.describe ++ " " ++ h.name ++ lifeSuffix h.life ++ " = " ++
          (s.declare h.name v h.mutability h.life).heap.display v), fs⟩
  | hoist (s : State) (fs : List Firing) (h : Hoist) (v : Value) :
    Moves host ⟨s, fs⟩ (.declare s.depth h.header.name)
      ⟨(s.declareHoisted h.header.name v h.header.mutability h.header.life h.line).announce
        ("hoisted " ++ h.header.mutability.describe ++ " " ++ h.header.name ++ " from line " ++
          toString h.line ++ " = " ++
          (s.declareHoisted h.header.name v h.header.mutability h.header.life h.line).heap.display v), fs⟩
  | imply (s : State) (fs : List Firing) (name : String) (v : Value)
    (unknown : s.lookupVariable name = none) :
    Moves host ⟨s, fs⟩ (.declare s.depth name)
      ⟨(s.declare name v .varVar .forever).announce ("implicitly declared " ++ name), fs⟩
  | assign (s : State) (fs : List Firing) (name : String) (mode : AssignMode) (old : Variable)
    (rhs new : Value) (found : s.lookupVariable name = some old)
    (permitted : mode.permitted name old.mutability = .ok ())
    (combined : mode.combine s.heap old.value rhs = .ok new) :
    Moves host ⟨s, fs⟩ (.assign name mode) ⟨s.assign name new, fs⟩
  | write (s : State) (fs : List Firing) (root : Variable) (ref : Nat) (key : String) (v : Value)
    (access : Access host root ref key s) (editable : root.mutability.editable = true) :
    Moves host ⟨s, fs⟩ (.write root ref key)
      ⟨{ s with heap := s.heap.setProperty ref key v }, fs⟩
  | watch (s : State) (fs : List Firing) (bs : List Branch) (deps : List String) (line : Int)
    (distinct : deps.Nodup) : Moves host ⟨s, fs⟩ .watch ⟨s.addWatch bs deps line, fs⟩
  | enter {s u : State} (fs : List Firing) (params : List String) (args : List Value)
    (pushed : s.push = .ok u) : Moves host ⟨s, fs⟩ .enter ⟨bindParams params args u, fs⟩
  | leave {s u : State} (fs : List Firing) (popped : s.pop? = some u)
    (above : ∀ f ∈ fs, f.depth < s.depth) : Moves host ⟨s, fs⟩ (.leave s.depth) ⟨u, fs⟩
  | fire (s : State) (fs : List Firing) (i : Nat) (w : Watch) (here : s.watches[i]? = some w)
    (idle : w.firing = false) (changed : differ (s.valuesOf w.deps) w.snapshot = true) :
    Moves host ⟨s, fs⟩ (.fire i) ⟨s.firing i w, ⟨i, s.depth⟩ :: fs⟩
  | depend (s : State) (fs : List Firing) (f : Firing) (w : Watch) (deps : List String)
    (here : s.watches[f.index]? = some w) (grows : Reading.Grows w.deps deps) :
    Moves host ⟨s, f :: fs⟩ (.depend f.index)
      ⟨s.modifyWatch f.index fun w => { w with deps := deps, snapshot := s.valuesOf deps }, f :: fs⟩
  | rest (s : State) (fs : List Firing) (f : Firing) :
    Moves host ⟨s, f :: fs⟩ (.rest f.index)
      ⟨s.modifyWatch f.index fun w => { w with firing := false }, fs⟩

/-! ## Sequences of moves -/

/-- A sequence of moves: what each of them did, and the moment it led to. -/
inductive Journey (host : Host) : Moment → List (Deed × Moment) → Moment → Prop
  | stay (m : Moment) : Journey host m [] m
  | move {m m' m'' : Moment} {d : Deed} {ds : List (Deed × Moment)} (first : Moves host m d m')
    (rest : Journey host m' ds m'') : Journey host m ((d, m') :: ds) m''

/-- A journey from one moment to another is part of a longer one. -/
def Journey.Part (host : Host) (start : Moment) (ds : List (Deed × Moment)) (m : Moment)
    (during : List (Deed × Moment)) (m' : Moment) : Prop :=
  ∃ before after, ds = before ++ (during ++ after) ∧ Journey host start before m ∧ Journey host m during m'

namespace Journey

variable {host : Host} {m m' m'' : Moment} {ds es : List (Deed × Moment)}

theorem single {d : Deed} (h : Moves host m d m') : Journey host m [(d, m')] m' := .move h (.stay m')

theorem trans (h : Journey host m ds m') (k : Journey host m' es m'') : Journey host m (ds ++ es) m'' := by
  induction h with
  | stay _ => exact k
  | move first _ ih => exact .move first (ih k)

/-- What moves preserve holds at every moment of a journey. -/
theorem invariant {Inv : Moment → Prop} (step : ∀ {m d m'}, Inv m → Moves host m d m' → Inv m')
    (h : Journey host m ds m') (start : Inv m) : Inv m' ∧ ∀ e ∈ ds, Inv e.2 := by
  induction h with
  | stay m => exact ⟨start, fun _ he => nomatch he⟩
  | move first _ ih =>
    have next := step start first
    exact ⟨(ih next).1, List.forall_mem_cons.2 ⟨next, (ih next).2⟩⟩

end Journey

/-! ## Runs that make a journey -/

/-- The state is balanced, and the watches that are being fired were found in it or below. -/
structure State.Under (fs : List Firing) (s : State) : Prop where
  balanced : s.Balanced
  within : ∀ f ∈ fs, f.depth ≤ s.depth

/-- While some watches are being fired, a journey leads from one state to another on the same height
of the stack, and the same watches are being fired at its end. The journey leaves the frames below
to themselves. -/
def Way (host : Host) (fs : List Firing) (s t : State) : Prop :=
  s.SameStack t ∧ ∃ ds, Journey host ⟨s, fs⟩ ds ⟨t, fs⟩ ∧ ∀ e ∈ ds, e.1.Above s.depth

/-- From a state, and while some watches are being fired, the run makes a journey. -/
def Run.Leads {α : Type} (host : Host) (fs : List Firing) (x : Run α) (s : State) : Prop :=
  s.Under fs → Way host fs s (x.reached s)

section Ways

variable {host : Host} {fs : List Firing} {s t u : State}

theorem Way.refl (s : State) : Way host fs s s := ⟨.refl s, [], .stay _, fun _ he => nomatch he⟩

theorem Way.trans (h : Way host fs s t) (k : Way host fs t u) : Way host fs s u := by
  obtain ⟨same, ds, there, above⟩ := h
  obtain ⟨same', es, further, above'⟩ := k
  rw [same.depth] at above'
  exact ⟨same.trans same', ds ++ es, there.trans further, List.forall_mem_append.2 ⟨above, above'⟩⟩

theorem Way.of_moves {d : Deed} (same : s.SameStack t) (h : Moves host ⟨s, fs⟩ d ⟨t, fs⟩)
    (above : d.Above s.depth) : Way host fs s t :=
  ⟨same, [(d, ⟨t, fs⟩)], .single h, List.forall_mem_singleton.2 above⟩

theorem Way.of_quiet (same : s.SameStack t) (quiet : Quiet host s t) : Way host fs s t :=
  .of_moves same (.other fs quiet) trivial

theorem Way.under (h : Way host fs s t) (hs : s.Under fs) : t.Under fs := by
  obtain ⟨same, -⟩ := h
  refine ⟨same.balanced hs.balanced, fun f hf => ?_⟩
  rw [same.depth]
  exact hs.within f hf

end Ways

namespace Run

variable {host : Host} {fs : List Firing} {s : State} {α β : Type}

theorem Leads.get_bind {f : State → Run α} (h : (f s).Leads host fs s) :
    (get >>= f : Run α).Leads host fs s := h

theorem reached_bind (x : Run α) (f : α → Run β) (s : State) :
    (∃ a t, x s = .ok a t ∧ (x >>= f).reached s = (f a).reached t) ∨
      (x >>= f).reached s = x.reached s := by
  cases hx : x s with
  | ok a t =>
    left
    refine ⟨a, t, rfl, ?_⟩
    unfold Run.reached
    rw [Run.bind_of_ok hx]
  | error e t =>
    right
    unfold Run.reached
    rw [Run.bind_of_error hx, hx]

/-- A run that continues as another one does after a way. -/
theorem Leads.after {x y : Run α} {t : State} (way : s.Under fs → Way host fs s t) (h : y.Leads host fs t)
    (same : x s = y t) : x.Leads host fs s := by
  intro hs
  have there := way hs
  have reached : x.reached s = y.reached t := by
    unfold Run.reached
    rw [same]
  rw [reached]
  exact there.trans (h (there.under hs))

/-- Two runs in sequence; the second starts from what the first ended with. -/
theorem Leads.bind {x : Run α} {f : α → Run β} (hx : x.Leads host fs s)
    (hf : ∀ a t, x s = .ok a t → (f a).Leads host fs t) : (x >>= f).Leads host fs s := by
  intro hs
  have first := hx hs
  rcases reached_bind x f s with ⟨a, t, ran, same⟩ | same
  · rw [same]
    have there : x.reached s = t := by
      unfold Run.reached
      rw [ran]
    rw [there] at first
    exact first.trans (hf a t ran (first.under hs))
  · rw [same]
    exact first

theorem leads_pure (a : α) : (pure a : Run α).Leads host fs s := fun _ => .refl s

theorem leads_throw (e : Error) : (throw e : Run α).Leads host fs s := fun _ => .refl s

theorem leads_throw_bind (e : Error) (f : α → Run β) : (throw e >>= f : Run β).Leads host fs s :=
  fun _ => .refl s

theorem leads_modify {f : State → State} (h : s.Under fs → Way host fs s (f s)) :
    (modify f : Run PUnit).Leads host fs s := h

theorem leads_modifyGet {f : State → α × State} (h : s.Under fs → Way host fs s (f s).2) :
    (modifyGet f : Run α).Leads host fs s := h

theorem leads_ofFault (r : Except TypeFault α) : (Run.ofFault r).Leads host fs s := by
  cases r with
  | ok a => exact leads_pure a
  | error f => exact leads_throw _

theorem leads_read (p : Names → Reading α) : (Run.read p).Leads host fs s := by
  intro _
  unfold Run.reached Run.read
  cases (p s.names).outcome with
  | ok a => exact .refl s
  | error e => exact .refl s

theorem way_record (s : State) (r : Record) : Way host fs s (s.record r) :=
  .of_quiet (s.sameStack_record r) (.record s r)

theorem leads_log (level : Level) (category : Category) (message : String) :
    (Run.log level category message).Leads host fs s := fun _ => way_record s _

theorem leads_debug (category : Category) (message : String) :
    (Run.debug category message).Leads host fs s := leads_log .debug category message

theorem leads_display (v : Value) : (Run.display v).Leads host fs s := fun _ => .refl s

theorem Leads.locate {x : Run α} (pos : Option Position) (h : x.Leads host fs s) :
    (Run.locate pos x).Leads host fs s := by
  have same : (Run.locate pos x).reached s = x.reached s := by
    unfold Run.reached Run.locate
    cases x s with
    | ok a t => rfl
    | error e t => rfl
  intro hs
  rw [same]
  exact h hs

theorem reached_inFrame (pos : Option Position) {x : Run α} {u w : State} (entered : s.push = .ok u)
    (left : (x.reached u).pop? = some w) : (Run.inFrame pos x).reached s = w := by
  have leave : Run.leave (x.reached u) = .ok () w := by rw [Run.leave, left]
  unfold Run.reached at leave
  unfold Run.reached Run.inFrame
  rw [entered]
  dsimp only
  cases hx : x u with
  | ok a v =>
    rw [hx] at leave
    dsimp only
    rw [Run.bind_of_ok leave]
    rfl
  | error e v =>
    rw [hx] at leave
    dsimp only
    rw [Run.bind_of_ok leave]
    rfl

/-- What is run in a frame of its own makes its journey between entering the frame and leaving it. -/
theorem Leads.inFrame (pos : Option Position) (params : List String) (args : List Value) {x : Run α}
    (body : ∀ t, x.Leads host fs t) :
    (Run.inFrame pos do modify (bindParams params args); x).Leads host fs s := by
  intro hs
  cases hpush : s.push with
  | error f =>
    have same : (Run.inFrame pos do modify (bindParams params args); x).reached s = s := by
      unfold Run.reached Run.inFrame
      rw [hpush]
    rw [same]
    exact .refl s
  | ok u =>
    have deeper : u.depth = s.depth + 1 := by rw [(State.push_eq_ok hpush).2]
    have bound := State.sameStack_bindParams (hs.balanced.push hpush) params args
    have under : (bindParams params args u).Under fs := by
      refine ⟨bound.balanced (hs.balanced.push hpush), fun f hf => ?_⟩
      have := hs.within f hf
      have := bound.depth
      omega
    obtain ⟨inside, ds, journey, above⟩ := body _ under
    have inside := bound.trans inside
    obtain ⟨w, popped, same⟩ := State.pop_of_push hpush inside
    have reached := reached_inFrame pos (x := do modify (bindParams params args); x) hpush popped
    rw [reached]
    refine ⟨same, (.enter, ⟨bindParams params args u, fs⟩) ::
      (ds ++ [(.leave (x.reached (bindParams params args u)).depth, ⟨w, fs⟩)]), ?_, ?_⟩
    · refine .move (.enter fs params args hpush) (journey.trans (.single (.leave fs popped fun f hf => ?_)))
      have := hs.within f hf
      have := inside.depth
      omega
    · refine List.forall_mem_cons.2 ⟨trivial, List.forall_mem_append.2 ⟨fun e he => ?_, ?_⟩⟩
      · have := bound.depth
        exact (above e he).mono (by omega)
      · refine List.forall_mem_singleton.2 ?_
        have := inside.depth
        change s.depth < (x.reached (bindParams params args u)).depth
        omega

end Run

end Gapscript
