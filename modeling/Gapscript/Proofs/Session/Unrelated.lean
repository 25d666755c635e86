import Gapscript.Proofs.Run.Unrelated
import Gapscript.Proofs.Session.Reachable

/-!
# Unrelated bindings

A program does the same in a new interpreter and in one where a name that its text does not mention
has been bound beforehand to a variable or a function (`unrelated_binding_unnoticed`).
-/

namespace Gapscript

namespace Stranger

variable {k : Stranger} {s : State}

/-! ## The standard library -/

theorem follows_assert (hs : k.Ready s) (call : Invocation) :
    k.Follows s (Library.assert.handler call) (Library.assert.handler call) k.source.Holds := by
  cases holds : call.first.toBoolean with
  | true =>
    have run (t : State) := Library.assert_handler_of_true (s := t) holds
    exact .ok .undefined s (run s) (run _) (.refl hs) trivial
  | false =>
    have run (t : State) := Library.assert_handler_of_false (s := t) holds
    exact .error _ s (run s) (run _) (.refl hs)

/-- Only a ticking clock moves. -/
theorem follows_wait (hs : k.Ready s) (duration : Int) :
    k.Follows s (modify fun s => if s.ticking then { s with now := s.now + duration } else s : Run PUnit)
      (modify fun s => if s.ticking then { s with now := s.now + duration } else s) fun _ => True := by
  refine follows_modify ?_ ?_
  · change (if s.ticking then _ else _) = State.without k.name (if s.ticking then _ else _)
    split
    · rfl
    · rfl
  · split
    · exact .aside hs rfl rfl rfl rfl
    · exact .refl hs

theorem follows_sleep (hs : k.Ready s) (call : Invocation) :
    k.Follows s (Library.sleep.handler call) (Library.sleep.handler call) k.source.Holds := by
  by_cases invalid : Library.Unwaitable call
  · have run (t : State) := Library.sleep_handler_of_unwaitable (s := t) invalid
    exact .error _ s (run s) (run _) (.refl hs)
  · unfold Library.Unwaitable at invalid
    simp only [Library.sleep, invalid]
    refine (follows_debug hs _ _).bind fun _ t _ ht => ?_
    exact (follows_wait ht _).bind fun _ u _ hu => follows_pure hu trivial

theorem follows_standard {f : HostFunction} (hf : f ∈ Library.standard) (hs : k.Ready s) (call : Invocation) :
    k.Follows s (f.handler call) (f.handler call) k.source.Holds := by
  simp only [Library.standard, List.mem_cons, List.not_mem_nil, or_false] at hf
  rcases hf with rfl | rfl | rfl | rfl | rfl
  · exact .ok .undefined _ rfl rfl (.aside hs rfl rfl rfl rfl) trivial
  · exact follows_assert hs call
  · exact .ok _ s rfl rfl (.refl hs) trivial
  · exact follows_sleep hs call
  · exact .ok _ _ rfl rfl (.aside hs rfl rfl rfl rfl) trivial

end Stranger

/-! ## Binding a name beforehand -/

/-- What a name can be bound to. -/
inductive Binding where
  | var (value : Value) (mutability : Mutability) (life : LifeTime)
  | func (id : Nat) (params : List String) (body : Body) (line : Int)

/-- Binds a name in the innermost frame. -/
def State.bind (s : State) (name : String) : Binding → State
  | .var value mutability life => s.declare name value mutability life
  | .func id params body line => s.define ⟨id, name, params, body, line⟩

theorem State.without_bind {s : State} (hs : s.frames ≠ []) (name : String) (b : Binding) :
    (s.bind name b).without name = s.without name := by
  cases b with
  | var value mutability life =>
    exact without_modifyTop_of_same
      (Frame.without_withVariable_self ⟨name, value, mutability, life, s.line, false, _⟩) hs
  | func id params body line =>
    exact without_modifyTop_of_same (Frame.without_withFunction_self ⟨id, name, params, body, line⟩) hs

namespace Interpreter

/-- A new interpreter of a host that has objects, identities and handlers of its own, none of them
bound to a name. -/
def newBeside (settings : Settings) (ticking : Bool) (heap : Heap) (identities : Nat)
    (handlers : Array HostFunction) : Interpreter :=
  let i := new settings ticking
  { i with
    functions := i.functions ++ handlers
    state := { i.state with heap := heap, identities := identities } }

example (settings : Settings) (ticking : Bool) :
    newBeside settings ticking {} 5 #[] = new settings ticking := rfl

variable (settings : Settings) (ticking : Bool) (heap : Heap) (identities : Nat)
  (handlers : Array HostFunction)

/-- The global frame binds nothing but registered functions. -/
def BindsNatives (i : Interpreter) : Prop :=
  ∃ funcs, i.state.frames = [{ funcs := funcs }] ∧
    ∀ fn ∈ funcs, ∃ slot arity, fn.code.body = .native slot arity ∧ slot < i.functions.size

theorem BindsNatives.register {i : Interpreter} (h : i.BindsNatives) (f : HostFunction) :
    (i.register f).BindsNatives := by
  obtain ⟨funcs, frames, natives⟩ := h
  let ref : FunctionRef := ⟨i.state.identities, f.name, [], .native i.functions.size f.arity, 0⟩
  refine ⟨Frame.putFunction ref funcs, ?_, ?_⟩
  · unfold Interpreter.register State.newFunction State.define State.modifyTop
    dsimp only
    rw [frames]
    rfl
  · intro fn hfn
    rw [Frame.putFunction_eq] at hfn
    change ∃ slot arity, _ ∧ slot < (i.functions.push f).size
    rw [Array.size_push]
    rcases Frame.mem_putBy hfn with rfl | hfn
    · exact ⟨_, _, rfl, Nat.lt_succ_self _⟩
    · obtain ⟨slot, arity, native, known⟩ := natives fn hfn
      exact ⟨slot, arity, native, Nat.lt_succ_of_lt known⟩

theorem bindsNatives_new : (new settings ticking).BindsNatives := by
  refine List.foldlRecOn Library.standard Interpreter.register ?_ fun i hi f _ => hi.register f
  exact ⟨[], rfl, fun _ hf => nomatch hf⟩

theorem ready_newBeside {k : Stranger} (hbase : k.base = heap.objects.size)
    (hslots : k.slots = Library.standard.length) :
    k.Ready (newBeside settings ticking heap identities handlers).state := by
  obtain ⟨funcs, frames, natives⟩ := bindsNatives_new settings ticking
  refine ⟨List.cons_ne_nil _ _, fun f hf => ?_, ⟨Nat.le_of_eq hbase, fun ref o href ho => ?_⟩, ?_⟩
  · change f ∈ (new settings ticking).state.frames.map (Frame.without k.name) at hf
    rw [frames, List.map_singleton] at hf
    obtain rfl := List.mem_singleton.1 hf
    refine ⟨(fun v hv => nomatch hv), fun fn hfn => ?_⟩
    obtain ⟨slot, arity, native, known⟩ := natives fn (List.mem_filter.1 hfn).1
    change k.Callable fn.code
    unfold Stranger.Callable
    rw [native, hslots]
    exact known
  -- What is on the heap already lies below the base.
  · change heap.objects[ref]? = some o at ho
    rw [Array.getElem?_eq_none (hbase ▸ href)] at ho
    cases ho
  · exact fun w hw => nomatch hw

theorem natives_newBeside {k : Stranger} (hslots : k.slots = Library.standard.length) (endCloses : Bool) :
    k.Natives ((newBeside settings ticking heap identities handlers).host endCloses) := by
  intro slot f hslot hf call s hs hargs
  change (Library.standard.toArray ++ handlers)[slot]? = some f at hf
  rw [hslots] at hslot
  have here : slot < Library.standard.toArray.size := hslot
  rw [Array.getElem?_append_left here] at hf
  exact Stranger.follows_standard (List.mem_toArray.1 (Array.mem_of_getElem? hf)) hs call

/-- What a run ends with from two states that differ in what is bound to a stranger. -/
theorem collecting_alike {k : Stranger} {x : Run Unit}
    (follows : ∀ {s}, k.Ready s → k.Follows s x x fun _ => True) {i : Interpreter} (hs : k.Ready i.state)
    {t : State} (same : t.without k.name = i.state.without k.name) :
    let plain := i.collecting x
    let other := { i with state := t }.collecting x
    other.1 = plain.1 ∧ other.2.state.without k.name = plain.2.state.without k.name ∧
      other.2.state.only k.name = t.only k.name := by
  intro plain other
  have start : State.without k.name { t with produced := #[] } =
      State.without k.name { i.state with produced := #[] } :=
    congrArg (fun s : State => { s with produced := #[] }) same
  have ready : k.Ready { i.state with produced := #[] } := Stranger.Sourced.congr hs rfl rfl rfl
  have ready' : k.Ready { t with produced := #[] } := by
    rw [Stranger.Ready, start]
    exact ready
  rcases (follows ready).meet (follows ready') start with
    ⟨_, u, u', run, run', reached, kept⟩ | ⟨e, u, u', run, run', reached, kept⟩
  · have ended := collecting_of_ok run
    have ended' := collecting_of_ok (i := { i with state := t }) run'
    rw [State.produced_of_without reached] at ended'
    change plain = _ at ended
    change other = _ at ended'
    rw [ended, ended']
    exact ⟨rfl, congrArg (fun s : State => { s with produced := #[] }) reached, kept.only⟩
  · have ended := collecting_of_error run
    have ended' := collecting_of_error (i := { i with state := t }) run'
    rw [State.produced_of_without reached] at ended'
    change plain = _ at ended
    change other = _ at ended'
    rw [ended, ended']
    exact ⟨rfl, congrArg (fun s : State => { s with produced := #[] }) reached, kept.only⟩

end Interpreter

open Interpreter in
/-- A program does the same in a new interpreter and in one where a name that its text does not mention
was bound beforehand. The outcome is the same; the states reached, with what was written and the frames,
are the same but for what is bound to the name; and that is what it was. -/
theorem unrelated_binding_unnoticed (settings : Settings) (ticking : Bool) (heap : Heap) (identities : Nat)
    (handlers : Array HostFunction) {source name : String} (absent : ¬ name.toList <:+: source.toList)
    (file : String) (b : Binding) :
    let fresh := newBeside settings ticking heap identities handlers
    let bound := { fresh with state := fresh.state.bind name b }
    let plain := fresh.evaluate source file
    let other := bound.evaluate source file
    other.1 = plain.1 ∧ other.2.state.without name = plain.2.state.without name ∧
      other.2.state.only name = bound.state.only name := by
  intro fresh bound
  let k : Stranger := ⟨source.toList, name, heap.objects.size, Library.standard.length, absent⟩
  have ready : k.Ready fresh.state := ready_newBeside settings ticking heap identities handlers rfl rfl
  have natives : k.Natives (fresh.host false) :=
    natives_newBeside settings ticking heap identities handlers rfl false
  have follows {s : State} (hs : k.Ready s) :=
    (Stranger.follows_runSource natives hs (c := Cursor.start source file) (List.infix_refl _)).bind
      fun _ _ _ hu => Stranger.follows_pure (Q := fun _ => True) hu (a := ()) trivial
  exact collecting_alike follows ready (State.without_bind ready.occupied name b)

/-- A bare word is read as text where `world` is a function of two parameters, as it is where nothing
of that name is known. -/
theorem unrelated_binding_unnoticed_function :
    ¬ "world".toList <:+: "var var greeting = hello! print greeting!".toList ∧
      let fresh := Interpreter.newBeside {} false {} 5 #[]
      let world := Binding.func 5 ["a", "b"] (.script "a".toList {} false) 1
      let bound := { fresh with state := fresh.state.bind "world" world }
      let plain := fresh.evaluate "var var greeting = hello! print greeting!" "greet"
      let other := bound.evaluate "var var greeting = hello! print greeting!" "greet"
      other.1 = plain.1 ∧ other.2.state.without "world" = plain.2.state.without "world" ∧
        other.2.state.only "world" = bound.state.only "world" := by
  have absent : ¬ "world".toList <:+: "var var greeting = hello! print greeting!".toList := by
    intro mentioned
    have letter : 'w' ∈ "var var greeting = hello! print greeting!".toList := mentioned.subset (by simp)
    simp at letter
  exact ⟨absent, unrelated_binding_unnoticed {} false {} 5 #[] absent "greet" _⟩

end Gapscript
