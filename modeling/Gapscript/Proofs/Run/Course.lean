import Gapscript.Proofs.Run.Contract

/-!
# Courses

A contract allows every step, moving to any line included. A `Course` is a pact that names the lines
a run may be on, and allows every step that stays on its line. `k.Tracks stoppable s x y` is the
judgment about two runs from `s`: the pact allows what `x` does, and `y` does the same unless `x`
ran out of its budget, which only counts where runs are `stoppable`. The rules follow the combinators
that runs are built from, as those of `Agree` do, which is the case that nothing is stoppable.
-/

namespace Gapscript

/-- The host with another answer to whether the end of the text may close a statement. -/
def Host.ending (host : Host) (endCloses : Bool) : Host := { host with endCloses := endCloses }

/-- The run ends because its budget is spent. -/
def Run.Stopped {α : Type} (x : Run α) (s : State) : Prop := x.failure? s = some .exhausted

instance {α : Type} (x : Run α) (s : State) : Decidable (x.Stopped s) :=
  match h : x s with
  | .error .exhausted t => .isTrue (Run.failure?_eq_some.2 ⟨t, h⟩)
  | .ok a t => .isFalse fun stopped => by
    obtain ⟨u, hx⟩ := Run.failure?_eq_some.1 stopped
    rw [h] at hx
    cases hx
  | .error (.runtime _) t | .error (.mismatch _) t | .error (.unparsable _) t =>
    .isFalse fun stopped => by
      obtain ⟨u, hx⟩ := Run.failure?_eq_some.1 stopped
      rw [h] at hx
      cases hx

theorem Run.stopped_iff {α : Type} {x : Run α} {s : State} :
    x.Stopped s ↔ ∃ t, x s = .error .exhausted t := Run.failure?_eq_some

/-- A pact that allows every step that stays on its line, and moving to certain lines. -/
structure Course (host : Host) extends Pact host where
  Line : Int → Prop
  line : ∀ {s l}, Pre s → Line l → Change s { s with line := l }
  step : ∀ {s t}, Pre s → Step host s t → t.line = s.line → Change s t

/-- A contract is a course over every line. -/
def Contract.toCourse {host : Host} (k : Contract host) : Course host :=
  { k.toPact with
    Line := fun _ => True
    line := fun hs _ => k.step hs (.line _ _)
    step := fun hs h _ => k.step hs h }

namespace Pact

variable {host : Host} {α β : Type} {k : Pact host} {stoppable : Prop} {s : State}

/-- From the state, the pact allows what the first run does, and the second run does the same unless
the first was stopped. -/
def Tracks (k : Pact host) (stoppable : Prop) (s : State) (x y : Run α) : Prop :=
  k.Allows s (x s) ∧ (y s = x s ∨ stoppable ∧ x.Stopped s)

theorem agree_iff_tracks {x y : Run α} : k.Agree s x y ↔ k.Tracks False s x y := by
  unfold Agree Tracks
  rw [false_and, or_false, and_comm]

theorem Tracks.agree {x y : Run α} (h : k.Tracks False s x y) : k.Agree s x y := agree_iff_tracks.2 h

theorem Agree.tracks {x y : Run α} (h : k.Agree s x y) : k.Tracks stoppable s x y := ⟨h.2, .inl h.1⟩

/-- A run that was not stopped is followed by the other one. -/
theorem Tracks.eq {x y : Run α} (h : k.Tracks stoppable s x y) (ends : ¬ x.Stopped s) : y s = x s :=
  h.2.resolve_right fun stopped => ends stopped.2

/-! ## Rules -/

theorem Tracks.get_bind {f g : State → Run β} (h : k.Tracks stoppable s (f s) (g s)) :
    k.Tracks stoppable s (get >>= f) (get >>= g) := h

/-- Two runs in sequence; the second starts from what the first ended with. -/
theorem Tracks.bind_of (hs : k.Pre s) {x y : Run α} {f g : α → Run β} (hx : k.Tracks stoppable s x y)
    (hf : ∀ a t, x s = .ok a t → k.Pre t → k.Tracks stoppable t (f a) (g a)) :
    k.Tracks stoppable s (x >>= f) (y >>= g) := by
  obtain ⟨allowed, same⟩ := hx
  cases hr : x s with
  | error e t =>
    rw [hr] at allowed
    unfold Tracks
    rw [Run.bind_of_error hr]
    refine ⟨allowed, ?_⟩
    obtain same | ⟨may, stopped⟩ := same
    · exact .inl (Run.bind_of_error (same.trans hr))
    · obtain ⟨u, hu⟩ := Run.stopped_iff.1 stopped
      rw [hr] at hu
      cases hu
      exact .inr ⟨may, Run.stopped_iff.2 ⟨t, Run.bind_of_error hr⟩⟩
  | ok a t =>
    have same : y s = .ok a t := by
      obtain same | ⟨-, stopped⟩ := same
      · exact same.trans hr
      · obtain ⟨u, hu⟩ := Run.stopped_iff.1 stopped
        rw [hr] at hu
        cases hu
    rw [hr] at allowed
    obtain ⟨allowed', same'⟩ := hf a t hr (k.stable hs allowed)
    unfold Tracks Run.Stopped Run.failure?
    rw [Run.bind_of_ok hr, Run.bind_of_ok same]
    refine ⟨?_, same'⟩
    cases hr' : f a t with
    | ok b u =>
      rw [hr'] at allowed'
      exact k.trans allowed allowed'
    | error e u =>
      rw [hr'] at allowed'
      exact ⟨k.trans allowed allowed'.1, allowed'.2⟩

theorem Tracks.bind (hs : k.Pre s) {x y : Run α} {f g : α → Run β} (hx : k.Tracks stoppable s x y)
    (hf : ∀ a t, k.Pre t → k.Tracks stoppable t (f a) (g a)) :
    k.Tracks stoppable s (x >>= f) (y >>= g) :=
  hx.bind_of hs fun a t _ ht => hf a t ht

/-- An outcome with its failure and its state changed. -/
def concluded (place : Error → Error) (cleanup : State → State) :
    EStateM.Result Error State α → EStateM.Result Error State α
  | .ok a t => .ok a (cleanup t)
  | .error e t => .error (place e) (cleanup t)

/-- Both runs may conclude in the same way, if that leaves a stopped run stopped. -/
theorem Tracks.conclude {x y x' y' : Run α} (h : k.Tracks stoppable s x y) {place : Error → Error}
    {cleanup : State → State} (hx : x' s = concluded place cleanup (x s))
    (hy : y' s = concluded place cleanup (y s)) (stops : place .exhausted = .exhausted)
    (raised : ∀ {e}, k.Raised e → k.Raised (place e))
    (clean : ∀ {t}, k.Change s t → k.Change s (cleanup t)) : k.Tracks stoppable s x' y' := by
  obtain ⟨allowed, same⟩ := h
  constructor
  · rw [hx]
    cases hr : x s with
    | ok a t => rw [hr] at allowed; exact clean allowed
    | error e t => rw [hr] at allowed; exact ⟨clean allowed.1, raised allowed.2⟩
  · obtain same | ⟨may, stopped⟩ := same
    · exact .inl (by rw [hx, hy, same])
    · obtain ⟨t, ht⟩ := Run.stopped_iff.1 stopped
      refine .inr ⟨may, Run.stopped_iff.2 ⟨cleanup t, ?_⟩⟩
      rw [hx, ht, concluded, stops]

theorem Tracks.locate {x y : Run α} (pos : Option Position) (h : k.Tracks stoppable s x y) :
    k.Tracks stoppable s (Run.locate pos x) (Run.locate pos y) :=
  h.conclude rfl rfl rfl (k.located pos) id

theorem Tracks.always (hs : k.Pre s) {x y : Run α} {cleanup : State → State}
    (clean : ∀ t, Passive host t (cleanup t)) (h : k.Tracks stoppable s x y) :
    k.Tracks stoppable s (Run.always cleanup x) (Run.always cleanup y) :=
  h.conclude rfl rfl rfl id fun moved => k.trans moved (k.passive (k.stable hs moved) (clean _))

/-! ## Frames -/

/-- What runs in a new frame keeps the inner pact, and the outer pact allows entering the frame, what
happens in it, and leaving it. Where runs may be stopped, the frame can always be left. -/
structure Surrounds (k : Pact host) (stoppable : Prop) (inner : Pact host) : Prop where
  enter : ∀ {s u}, k.Pre s → s.push = .ok u → inner.Pre u
  leave : ∀ {s u v}, k.Pre s → s.push = .ok u → inner.Change u v → k.Allows s (Run.leave v)
  raised : ∀ {e}, inner.Raised e → k.Raised e
  left : stoppable → ∀ {s u v}, k.Pre s → s.push = .ok u → inner.Change u v → v.pop?.isSome

theorem Encloses.surrounds {k' : Contract host} (h : k.Encloses k') : k.Surrounds False k'.toPact :=
  ⟨h.enter, h.leave, h.raised, False.elim⟩

theorem Tracks.inFrame {k' : Pact host} (surrounds : k.Surrounds stoppable k') (hs : k.Pre s)
    (pos : Option Position) {x y : Run α} (body : ∀ u, k'.Pre u → k'.Tracks stoppable u x y) :
    k.Tracks stoppable s (Run.inFrame pos x) (Run.inFrame pos y) := by
  unfold Tracks Run.Stopped Run.failure? Run.inFrame
  cases hpush : s.push with
  | error f => exact ⟨⟨k.refl hs, k.located pos (k.ordinary (.fault f none))⟩, .inl rfl⟩
  | ok u =>
    obtain ⟨allowed, same⟩ := body u (surrounds.enter hs hpush)
    dsimp only
    constructor
    · cases hr : x u with
      | ok a v =>
        rw [hr] at allowed
        have left := surrounds.leave hs hpush allowed
        change k.Allows s (EStateM.bind Run.leave (fun _ => pure a) v)
        rw [EStateM.bind]
        cases hl : Run.leave v with
        | ok _ w => rw [hl] at left; exact left
        | error e w => rw [hl] at left; exact left
      | error e v =>
        rw [hr] at allowed
        have left := surrounds.leave hs hpush allowed.1
        change k.Allows s (EStateM.bind Run.leave (fun _ => throw e) v)
        rw [EStateM.bind]
        cases hl : Run.leave v with
        | ok _ w => rw [hl] at left; exact ⟨left, surrounds.raised allowed.2⟩
        | error e' w => rw [hl] at left; exact left
    · obtain same | ⟨may, stopped⟩ := same
      · exact .inl (by rw [same])
      · -- The frame of a stopped body can be left, so the failure is still that of the body.
        obtain ⟨v, hr⟩ := Run.stopped_iff.1 stopped
        rw [hr] at allowed
        obtain ⟨w, left⟩ := Option.isSome_iff_exists.1 (surrounds.left may hs hpush allowed.1)
        have hl : Run.leave v = .ok () w := by rw [Run.leave, left]
        refine .inr ⟨may, ?_⟩
        rw [hr]
        dsimp only
        rw [Run.bind_of_ok hl]
        rfl

/-- One way to run the bodies of frames tracks another under a pact. -/
structure Follows (k : Pact host) (stoppable : Prop) (inner inner' : Inner) : Prop where
  statements : ∀ collect c s, k.Pre s →
    k.Tracks stoppable s (inner.statements collect c) (inner'.statements collect c)
  expression : ∀ e s, k.Pre s → k.Tracks stoppable s (inner.expression e) (inner'.expression e)

/-- One way to run the bodies of frames tracks another under some course that `k` surrounds. -/
def Nests (k : Pact host) (stoppable : Prop) (inner inner' : Inner) : Prop :=
  ∃ k' : Course host, k.Surrounds stoppable k'.toPact ∧ k'.Follows stoppable inner inner'

theorem Bodies.follows {inner inner' : Inner} (h : k.Bodies inner inner') :
    k.Follows False inner inner' where
  statements collect c s hs := (h.statements collect c s hs).tracks
  expression e s hs := (h.expression e s hs).tracks

theorem Nested.nests {inner inner' : Inner} (h : k.Nested inner inner') :
    k.Nests False inner inner' := by
  obtain ⟨k', encloses, bodies⟩ := h
  exact ⟨k'.toCourse, encloses.surrounds, bodies.follows⟩

/-! ## Single runs -/

theorem tracks_pure (hs : k.Pre s) (a : α) : k.Tracks stoppable s (pure a) (pure a) :=
  ⟨k.refl hs, .inl rfl⟩

theorem tracks_throw (hs : k.Pre s) {e : Error} (he : k.Raised e) :
    k.Tracks stoppable s (throw e : Run α) (throw e) := ⟨⟨k.refl hs, he⟩, .inl rfl⟩

theorem tracks_throw_bind (hs : k.Pre s) {e : Error} (he : k.Raised e) (f g : α → Run β) :
    k.Tracks stoppable s (throw e >>= f) (throw e >>= g) := ⟨⟨k.refl hs, he⟩, .inl rfl⟩

/-- A spent budget stops a run, whatever the other one does. -/
theorem tracks_exhausted (hs : k.Pre s) (may : stoppable) (raised : k.Raised .exhausted) (y : Run α) :
    k.Tracks stoppable s (throw .exhausted) y := ⟨⟨k.refl hs, raised⟩, .inr ⟨may, rfl⟩⟩

theorem tracks_modifyGet {f : State → α × State} (h : k.Change s (f s).2) :
    k.Tracks stoppable s (modifyGet f : Run α) (modifyGet f) := ⟨h, .inl rfl⟩

theorem tracks_modify {f : State → State} (h : k.Change s (f s)) :
    k.Tracks stoppable s (modify f : Run PUnit) (modify f) := ⟨h, .inl rfl⟩

theorem tracks_set {t : State} (h : k.Change s t) :
    k.Tracks stoppable s (set t : Run PUnit) (set t) := ⟨h, .inl rfl⟩

theorem tracks_ofFault (hs : k.Pre s) (r : Except TypeFault α) :
    k.Tracks stoppable s (Run.ofFault r) (Run.ofFault r) := by
  cases r with
  | ok a => exact tracks_pure hs a
  | error f => exact tracks_throw hs (k.ordinary (.fault f none))

/-- A check that changes nothing: what follows starts from the same state. -/
theorem tracks_ofFault_bind (hs : k.Pre s) {r : Except TypeFault α} {f g : α → Run β}
    (h : ∀ a, r = .ok a → k.Tracks stoppable s (f a) (g a)) :
    k.Tracks stoppable s (Run.ofFault r >>= f) (Run.ofFault r >>= g) := by
  cases r with
  | ok a => exact h a rfl
  | error e => exact tracks_throw_bind hs (k.ordinary (.fault e none)) f g

theorem tracks_read (hs : k.Pre s) {p : Names → Reading α} {Q : α → Prop}
    (hp : ∀ names, (p names).Gives Q) : k.Tracks stoppable s (Run.read p) (Run.read p) := by
  refine ⟨?_, .inl rfl⟩
  unfold Run.read
  split
  · exact k.refl hs
  · next e he => exact ⟨k.refl hs, k.ordinary (ordinary_settled ((hp s.names).of_outcome_error he))⟩

theorem tracks_log (hs : k.Pre s) (level : Level) (category : Category) (message : String) :
    k.Tracks stoppable s (Run.log level category message) (Run.log level category message) :=
  tracks_modify (k.passive hs (.record s _))

theorem tracks_debug (hs : k.Pre s) (category : Category) (message : String) :
    k.Tracks stoppable s (Run.debug category message) (Run.debug category message) :=
  tracks_log hs .debug category message

theorem tracks_display (hs : k.Pre s) (v : Value) :
    k.Tracks stoppable s (Run.display v) (Run.display v) := ⟨k.refl hs, .inl rfl⟩

theorem tracks_native (hs : k.Pre s) {f : HostFunction} (hf : f ∈ host.functions) (call : Invocation) :
    k.Tracks stoppable s (f.handler call) (f.handler call) := by
  refine ⟨?_, .inl rfl⟩
  have moved := k.passive hs (.native s f call hf)
  unfold Run.reached at moved
  cases hr : f.handler call s with
  | ok v t =>
    rw [hr] at moved
    exact moved
  | error e t =>
    rw [hr] at moved
    exact ⟨moved, k.native hf hs (Run.failure?_eq_some.2 ⟨t, hr⟩)⟩

end Pact

end Gapscript
