import Gapscript.Proofs.Reading.Statement
import Gapscript.Run.Statement

/-!
# Steps and contracts

`Step` lists every single change that running a program makes to the state besides entering and
leaving frames, and `Passive` those that evaluating an expression makes in the frame it is in. A
`Pact` says what runs may rely on, how they may change the state and which failures they may end
with; it has to allow every passive step and every failure that the interpreter raises itself. A
`Contract` allows every step. `k.Agree s x y` is the judgment about runs: from `s`, two runs do the
same, and the pact allows what they do.
-/

namespace Gapscript

/-! ## Steps -/

/-- The state in which a run ends, whatever the outcome. -/
def Run.reached {α : Type} (x : Run α) (s : State) : State :=
  match x s with
  | .ok _ t => t
  | .error _ t => t

/-- What a run fails with. -/
def Run.failure? {α : Type} (x : Run α) (s : State) : Option Error :=
  match x s with
  | .ok _ _ => none
  | .error e _ => some e

theorem Run.failure?_eq_some {α : Type} {x : Run α} {s : State} {e : Error} :
    x.failure? s = some e ↔ ∃ t, x s = .error e t := by
  unfold Run.failure?
  cases x s with
  | ok a t =>
    refine ⟨(fun h => nomatch h), ?_⟩
    rintro ⟨u, h⟩
    cases h
  | error e' t =>
    refine ⟨fun h => ⟨t, by rw [Option.some.inj h]⟩, ?_⟩
    rintro ⟨u, h⟩
    cases h
    rfl

/-- One change to the state within a frame. -/
inductive Step (host : Host) : State → State → Prop
  | line (s : State) (line : Int) : Step host s { s with line := line }
  | record (s : State) (r : Record) : Step host s (s.record r)
  | declare (s : State) (name : String) (v : Value) (m : Mutability) (life : LifeTime) :
    Step host s (s.declare name v m life)
  | declareHoisted (s : State) (name : String) (v : Value) (m : Mutability) (life : LifeTime)
    (line : Int) : Step host s (s.declareHoisted name v m life line)
  | define (s : State) (fn : FunctionRef) : Step host s (s.define fn)
  | assign (s : State) (name : String) (mode : AssignMode) (old : Variable) (rhs new : Value)
    (found : s.lookupVariable name = some old) (permitted : mode.permitted name old.mutability = .ok ())
    (combined : mode.combine s.heap old.value rhs = .ok new) : Step host s (s.assign name new)
  | setProperty (s : State) (ref : Nat) (key : String) (v : Value) :
    Step host s { s with heap := s.heap.setProperty ref key v }
  | newObject (s : State) (o : Object) : Step host s (s.newObject o).2
  | newFunction (s : State) (fn : Function) : Step host s (s.newFunction fn).2
  | addWatch (s : State) (bs : List Branch) (deps : List String) (line : Int) :
    Step host s (s.addWatch bs deps line)
  | snapshot (s : State) (i : Nat) (w : Watch) (here : s.watches[i]? = some w) :
    Step host s (s.modifyWatch i fun v => { v with snapshot := s.valuesOf w.deps })
  | firing (s : State) (i : Nat) (on : Bool) :
    Step host s (s.modifyWatch i fun w => { w with firing := on })
  | depend (s : State) (i : Nat) (deps : List String) :
    Step host s (s.modifyWatch i fun w => { w with deps := deps, snapshot := s.valuesOf deps })
  | produce (s : State) (v : Value) : Step host s { s with produced := s.produced.push v }
  | native (s : State) (f : HostFunction) (call : Invocation) (known : f ∈ host.functions) :
    Step host s (Run.reached (f.handler call) s)

/-- One change to the state that leaves the frames and the list of watches as they are. -/
inductive Passive (host : Host) : State → State → Prop
  | record (s : State) (r : Record) : Passive host s (s.record r)
  | newObject (s : State) (o : Object) : Passive host s (s.newObject o).2
  | newFunction (s : State) (fn : Function) : Passive host s (s.newFunction fn).2
  | snapshot (s : State) (i : Nat) (w : Watch) (here : s.watches[i]? = some w) :
    Passive host s (s.modifyWatch i fun v => { v with snapshot := s.valuesOf w.deps })
  | firing (s : State) (i : Nat) (on : Bool) :
    Passive host s (s.modifyWatch i fun w => { w with firing := on })
  | depend (s : State) (i : Nat) (deps : List String) :
    Passive host s (s.modifyWatch i fun w => { w with deps := deps, snapshot := s.valuesOf deps })
  | native (s : State) (f : HostFunction) (call : Invocation) (known : f ∈ host.functions) :
    Passive host s (Run.reached (f.handler call) s)

theorem Passive.toStep {host : Host} {s t : State} (h : Passive host s t) : Step host s t := by
  cases h with
  | record r => exact .record s r
  | newObject o => exact .newObject s o
  | newFunction fn => exact .newFunction s fn
  | snapshot i w here => exact .snapshot s i w here
  | firing i on => exact .firing s i on
  | depend i deps => exact .depend s i deps
  | native f call known => exact .native s f call known

/-- A failure that the interpreter itself raises while a program runs. -/
inductive Ordinary : Error → Prop
  | unparsable (e : ParseError) : Ordinary (.unparsable e)
  | fault (f : TypeFault) (pos : Option Position) : Ordinary (.runtime ⟨.type f, pos⟩)
  | unbound (name : String) (pos : Option Position) : Ordinary (.runtime ⟨.variableNotFound name, pos⟩)
  | arity (name : String) (expected got : Int) (pos : Option Position) :
    Ordinary (.runtime ⟨.argumentCount name expected got, pos⟩)
  | missing (name : String) (pos : Option Position) :
    Ordinary (.runtime ⟨.functionNotFound name, pos⟩)

theorem Error.withPosition_cases (e : Error) (pos : Option Position) :
    e.withPosition pos = e ∨
      ∃ cause, e = .runtime ⟨cause, none⟩ ∧ e.withPosition pos = .runtime ⟨cause, pos⟩ := by
  cases e with
  | runtime e =>
    obtain ⟨cause, _ | known⟩ := e
    · exact .inr ⟨cause, rfl, rfl⟩
    · exact .inl rfl
  | mismatch e | unparsable e | exhausted => exact .inl rfl

theorem ordinary_settled {e : Error} (h : Reading.Reported e) : Ordinary e.settled := by
  cases h with
  | mismatch e => exact .unparsable e
  | tooFew name expected got pos => exact .arity name expected got (some pos)

theorem Run.get_bind {α : Type} (f : State → Run α) (s : State) : (get >>= f : Run α) s = f s s := rfl

theorem Run.modify_bind {α : Type} (f : State → State) (x : PUnit → Run α) (s : State) :
    (modify f >>= x : Run α) s = x ⟨⟩ (f s) := rfl

theorem Run.bind_of_ok {α β : Type} {x : Run α} {f : α → Run β} {s t : State} {a : α}
    (h : x s = .ok a t) : (x >>= f) s = f a t := by
  change EStateM.bind x f s = _
  rw [EStateM.bind, h]

theorem Run.bind_of_error {α β : Type} {x : Run α} {f : α → Run β} {s t : State} {e : Error}
    (h : x s = .error e t) : (x >>= f) s = .error e t := by
  change EStateM.bind x f s = _
  rw [EStateM.bind, h]

theorem Run.bind_eq_ok {α β : Type} {x : Run α} {f : α → Run β} {s u : State} {b : β} :
    (x >>= f) s = .ok b u ↔ ∃ a t, x s = .ok a t ∧ f a t = .ok b u := by
  change EStateM.bind x f s = _ ↔ _
  rw [EStateM.bind]
  cases x s with
  | ok a t =>
    refine ⟨fun h => ⟨a, t, rfl, h⟩, ?_⟩
    rintro ⟨a', t', hx, h⟩
    cases hx
    exact h
  | error e t =>
    refine ⟨(fun h => nomatch h), ?_⟩
    rintro ⟨a', t', hx, -⟩
    cases hx

theorem Run.locate_eq_ok {α : Type} {x : Run α} {pos : Option Position} {s t : State} {a : α}
    (h : Run.locate pos x s = .ok a t) : x s = .ok a t := by
  unfold Run.locate at h
  split at h
  · next hx => rw [hx, h]
  · cases h

/-! ## Contracts -/

/-- What runs may rely on, how they may change the state and how they may fail. -/
structure Pact (host : Host) where
  Pre : State → Prop
  Change : State → State → Prop
  Raised : Error → Prop
  refl : ∀ {s}, Pre s → Change s s
  trans : ∀ {s t u}, Change s t → Change t u → Change s u
  stable : ∀ {s t}, Pre s → Change s t → Pre t
  passive : ∀ {s t}, Pre s → Passive host s t → Change s t
  ordinary : ∀ {e}, Ordinary e → Raised e
  located : ∀ {e} (pos : Option Position), Raised e → Raised (e.withPosition pos)
  native : ∀ {f}, f ∈ host.functions → ∀ {call s e}, Pre s →
    Run.failure? (f.handler call) s = some e → Raised e

/-- A pact that allows every step within a frame. -/
structure Contract (host : Host) extends Pact host where
  step : ∀ {s t}, Pre s → Step host s t → Change s t
  passive hs h := step hs h.toStep

namespace Pact

variable {host : Host} {α β : Type}

/-- The pact allows what a run from the state ended with. -/
def Allows (k : Pact host) (s : State) : EStateM.Result Error State α → Prop
  | .ok _ t => k.Change s t
  | .error e t => k.Change s t ∧ k.Raised e

/-- From the state, two runs do the same, and the pact allows it. -/
def Agree (k : Pact host) (s : State) (x y : Run α) : Prop := y s = x s ∧ k.Allows s (x s)

theorem Allows.change {k : Pact host} {s : State} {x : Run α} (h : k.Allows s (x s)) :
    k.Change s (x.reached s) := by
  unfold Run.reached
  cases hr : x s with
  | ok a t => rw [hr] at h; exact h
  | error e t => rw [hr] at h; exact h.1

theorem Allows.raised {k : Pact host} {s : State} {x : Run α} (h : k.Allows s (x s)) {e : Error}
    (he : x.failure? s = some e) : k.Raised e := by
  obtain ⟨t, hr⟩ := Run.failure?_eq_some.1 he
  rw [hr] at h
  exact h.2

/-! ## Frames -/

/-- What runs in a new frame keeps the inner contract, and the outer pact allows entering the frame,
what happens in it, and leaving it. -/
structure Encloses (k : Pact host) (inner : Contract host) : Prop where
  enter : ∀ {s u}, k.Pre s → s.push = .ok u → inner.Pre u
  leave : ∀ {s u v}, k.Pre s → s.push = .ok u → inner.Change u v → k.Allows s (Run.leave v)
  raised : ∀ {e}, inner.Raised e → k.Raised e

/-- Two ways to run the bodies of frames agree under a pact. -/
structure Bodies (k : Pact host) (inner inner' : Inner) : Prop where
  statements : ∀ collect c s, k.Pre s →
    k.Agree s (inner.statements collect c) (inner'.statements collect c)
  expression : ∀ e s, k.Pre s → k.Agree s (inner.expression e) (inner'.expression e)

/-- Two ways to run the bodies of frames agree under some contract that `k` encloses. -/
def Nested (k : Pact host) (inner inner' : Inner) : Prop :=
  ∃ k' : Contract host, k.Encloses k' ∧ k'.Bodies inner inner'

end Pact

end Gapscript
