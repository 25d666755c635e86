import Gapscript.Proofs.Run.Frames
import Gapscript.Proofs.Run.Stranger

/-!
# Following a run without a stranger

`k.Follows s x y Q` is the judgment about runs: from `s`, the run `y` does what `x` does from `s`
without the stranger, leaves what is bound to it alone, and ends in a sourced state with something that
`Q` holds of. The rules below follow the combinators that runs are built from.
-/

namespace Gapscript

open Cursor Reading

namespace Stranger

/-- What is not bound to the stranger is sourced. -/
def Ready (k : Stranger) (s : State) : Prop := k.Sourced (s.without k.name)

/-- The later state has the frames of the earlier one, with the same bound to the stranger. -/
structure Keeps (k : Stranger) (s t : State) : Prop where
  ready : k.Ready t
  depth : t.depth = s.depth
  only : t.only k.name = s.only k.name

/-- From the state, the second run does what the first one does without the stranger. -/
inductive Follows {α : Type} (k : Stranger) (s : State) (x y : Run α) (Q : α → Prop) : Prop
  | ok (a : α) (t : State) (run : y s = .ok a t) (same : x (s.without k.name) = .ok a (t.without k.name))
    (keeps : k.Keeps s t) (holds : Q a)
  | error (e : Error) (t : State) (run : y s = .error e t)
    (same : x (s.without k.name) = .error e (t.without k.name)) (keeps : k.Keeps s t)

variable {k : Stranger} {α β : Type} {P Q : α → Prop} {R : β → Prop} {s t u v : State}

theorem Keeps.refl (hs : k.Ready s) : k.Keeps s s := ⟨hs, rfl, rfl⟩

theorem Keeps.trans (h : k.Keeps s t) (h' : k.Keeps t u) : k.Keeps s u :=
  ⟨h'.ready, h'.depth.trans h.depth, h'.only.trans h.only⟩

/-- A change beside the frames, the heap and the watches. -/
theorem Keeps.aside (hs : k.Ready s) (frames : t.frames = s.frames) (depth : t.depth = s.depth)
    (heap : t.heap = s.heap) (watches : t.watches = s.watches) : k.Keeps s t := by
  refine ⟨Sourced.congr hs ?_ heap watches, depth, ?_⟩
  · exact congrArg (List.map (Frame.without k.name)) frames
  · exact congrArg (List.map (Frame.only k.name)) frames

theorem Ready.occupied (hs : k.Ready s) : s.frames ≠ [] := by
  intro none
  have occupied := Sourced.occupied hs
  rw [State.without, none] at occupied
  exact occupied rfl

/-! ## Rules -/

theorem follows_pure (hs : k.Ready s) {a : α} (h : Q a) : k.Follows s (pure a) (pure a) Q :=
  .ok a s rfl rfl (.refl hs) h

theorem follows_throw (hs : k.Ready s) (e : Error) : k.Follows s (throw e : Run α) (throw e) Q :=
  .error e s rfl rfl (.refl hs)

theorem follows_modifyGet {f : State → α × State}
    (same : f (s.without k.name) = ((f s).1, (f s).2.without k.name)) (keeps : k.Keeps s (f s).2)
    (h : Q (f s).1) : k.Follows s (modifyGet f) (modifyGet f) Q := by
  have run (t : State) : (modifyGet f : Run α) t = .ok (f t).1 (f t).2 := rfl
  exact .ok (f s).1 (f s).2 rfl (by rw [run, same]) keeps h

theorem follows_modify {f : State → State} (same : f (s.without k.name) = (f s).without k.name)
    (keeps : k.Keeps s (f s)) : k.Follows s (modify f) (modify f) fun _ => True :=
  follows_modifyGet (congrArg (PUnit.unit, ·) same) keeps trivial

theorem Follows.congr {x x' y y' : Run α} (h : k.Follows s x y Q)
    (hx : x' (s.without k.name) = x (s.without k.name)) (hy : y' s = y s) : k.Follows s x' y' Q := by
  cases h with
  | ok a t run same keeps holds => exact .ok a t (hy.trans run) (hx.trans same) keeps holds
  | error e t run same keeps => exact .error e t (hy.trans run) (hx.trans same) keeps

theorem Follows.get_bind {f g : State → Run β} (h : k.Follows s (f (s.without k.name)) (g s) R) :
    k.Follows s (get >>= f) (get >>= g) R := h.congr rfl rfl

/-- Two runs in sequence; the second starts from what the first ended with. -/
theorem Follows.bind {x y : Run α} {f g : α → Run β} (hx : k.Follows s x y P)
    (hf : ∀ a t, P a → k.Ready t → k.Follows t (f a) (g a) R) : k.Follows s (x >>= f) (y >>= g) R := by
  cases hx with
  | error e t run same keeps => exact .error e t (Run.bind_of_error run) (Run.bind_of_error same) keeps
  | ok a t run same keeps holds =>
    cases hf a t holds keeps.ready with
    | ok b u run' same' keeps' holds' =>
      exact .ok b u ((Run.bind_of_ok run).trans run') ((Run.bind_of_ok same).trans same')
        (keeps.trans keeps') holds'
    | error e u run' same' keeps' =>
      exact .error e u ((Run.bind_of_ok run).trans run') ((Run.bind_of_ok same).trans same')
        (keeps.trans keeps')

theorem Follows.locate {x y : Run α} (h : k.Follows s x y Q) (pos : Option Position) :
    k.Follows s (Run.locate pos x) (Run.locate pos y) Q := by
  cases h with
  | ok a t run same keeps holds =>
    exact .ok a t (by rw [Run.locate, run]) (by rw [Run.locate, same]) keeps holds
  | error e t run same keeps =>
    exact .error (e.withPosition pos) t (by rw [Run.locate, run]) (by rw [Run.locate, same]) keeps

theorem Follows.always {x y : Run α} (h : k.Follows s x y Q) {cleanup : State → State}
    (same : ∀ t, cleanup (t.without k.name) = (cleanup t).without k.name)
    (clean : ∀ t, k.Ready t → k.Keeps t (cleanup t)) :
    k.Follows s (Run.always cleanup x) (Run.always cleanup y) Q := by
  cases h with
  | ok a t run same' keeps holds =>
    refine .ok a (cleanup t) ?_ ?_ (keeps.trans (clean t keeps.ready)) holds
    · rw [Run.always, run]
    · rw [Run.always, same', ← same]
  | error e t run same' keeps =>
    refine .error e (cleanup t) ?_ ?_ (keeps.trans (clean t keeps.ready))
    · rw [Run.always, run]
    · rw [Run.always, same', ← same]

theorem follows_ofFault (hs : k.Ready s) {r : Except TypeFault α} (h : ∀ a, r = .ok a → Q a) :
    k.Follows s (Run.ofFault r) (Run.ofFault r) Q := by
  cases r with
  | ok a => exact follows_pure hs (h a rfl)
  | error f => exact follows_throw hs _

/-- What is read from the text is read the same. -/
theorem follows_read (hs : k.Ready s) {p : Names → Reading α} {W : String → Prop}
    (h : Twins W (p (s.without k.name).names) (p s.names) Q) : k.Follows s (Run.read p) (Run.read p) Q := by
  have gives := h.gives
  rw [h.same] at gives
  cases hr : Reading.outcome (p s.names) with
  | ok a =>
    refine .ok a s ?_ ?_ (.refl hs) (gives.of_outcome_ok hr)
    · rw [Run.read, hr]
    · rw [Run.read, h.same, hr]
  | error e =>
    refine .error e.settled s ?_ ?_ (.refl hs)
    · rw [Run.read, hr]
    · rw [Run.read, h.same, hr]

theorem follows_log (hs : k.Ready s) (level : Level) (category : Category) (message : String) :
    k.Follows s (Run.log level category message) (Run.log level category message) fun _ => True :=
  follows_modify rfl (.aside hs rfl rfl rfl rfl)

theorem follows_debug (hs : k.Ready s) (category : Category) (message : String) :
    k.Follows s (Run.debug category message) (Run.debug category message) fun _ => True :=
  follows_log hs .debug category message

theorem follows_display (hs : k.Ready s) (v : Value) :
    k.Follows s (Run.display v) (Run.display v) fun _ => True :=
  .ok (s.heap.display v) s rfl rfl (.refl hs) trivial

/-- Two runs that follow the same one end alike. -/
theorem Follows.meet {x y : Run α} {s' : State} (h : k.Follows s x y Q) (h' : k.Follows s' x y Q)
    (same : s'.without k.name = s.without k.name) :
    (∃ a t t', y s = .ok a t ∧ y s' = .ok a t' ∧ t'.without k.name = t.without k.name ∧ k.Keeps s' t') ∨
    ∃ e t t', y s = .error e t ∧ y s' = .error e t' ∧ t'.without k.name = t.without k.name ∧
      k.Keeps s' t' := by
  cases h with
  | ok a t run plain keeps holds =>
    cases h' with
    | ok b t' run' plain' keeps' holds' =>
      rw [same, plain] at plain'
      obtain ⟨rfl, reached⟩ := EStateM.Result.ok.inj plain'
      exact .inl ⟨a, t, t', run, run', reached.symm, keeps'⟩
    | error e t' run' plain' keeps' =>
      rw [same, plain] at plain'
      cases plain'
  | error e t run plain keeps =>
    cases h' with
    | ok b t' run' plain' keeps' holds' =>
      rw [same, plain] at plain'
      cases plain'
    | error e' t' run' plain' keeps' =>
      rw [same, plain] at plain'
      obtain ⟨rfl, reached⟩ := EStateM.Result.error.inj plain'
      exact .inr ⟨e, t, t', run, run', reached.symm, keeps'⟩

/-! ## Frames -/

theorem push_without (s : State) :
    (s.without k.name).push = s.push.map (State.without k.name) := by
  unfold State.push
  change (if s.maxDepth > 0 ∧ (s.depth : Int) ≥ s.maxDepth then _ else _) = _
  split
  · rfl
  · rfl

theorem Ready.push (hs : k.Ready s) (entered : s.push = .ok u) : k.Ready u := by
  obtain ⟨-, rfl⟩ := State.push_eq_ok entered
  have frames := List.forall_mem_cons.2 ⟨frameSourced_empty, Sourced.frames hs⟩
  exact ⟨List.cons_ne_nil _ _, frames, hs.heap, hs.watches⟩

/-- A frame that was entered can be left, with and without the stranger. -/
theorem Keeps.pop (hs : k.Ready s) (entered : s.push = .ok u) (inside : k.Keeps u v) :
    ∃ w, v.pop? = some w ∧ (v.without k.name).pop? = some (w.without k.name) ∧ k.Keeps s w := by
  obtain ⟨-, rfl⟩ := State.push_eq_ok entered
  have depth : v.depth = s.depth + 1 := inside.depth
  have only : v.frames.map (Frame.only k.name) = Frame.only k.name {} :: s.only k.name := inside.only
  cases hf : v.frames with
  | nil => rw [hf] at only; cases only
  | cons top rest =>
    rw [hf, List.map_cons] at only
    -- The frame entered was empty, so what is bound to the stranger is in the frames below it.
    have below : rest.map (Frame.only k.name) = s.only k.name := (List.cons.inj only).2
    refine ⟨{ v with frames := rest, depth := s.depth, watches := v.watches.filter (·.height ≤ s.depth) },
      ?_, ?_, ?_, rfl, below⟩
    · rw [State.pop?, depth, hf]
    · have depth' : (v.without k.name).depth = s.depth + 1 := depth
      have frames' : (v.without k.name).frames = top.without k.name :: rest.map (Frame.without k.name) := by
        rw [State.without, hf, List.map_cons]
      rw [State.pop?, depth', frames']
      rfl
    · have frames := Sourced.frames inside.ready
      rw [State.without, hf] at frames
      refine ⟨fun none => hs.occupied ?_, (List.forall_mem_cons.1 frames).2, inside.ready.heap, fun w hw => ?_⟩
      · have none : rest = [] := List.map_eq_nil_iff.1 none
        rw [none] at below
        exact List.map_eq_nil_iff.1 below.symm
      · exact inside.ready.watches w (List.mem_filter.1 hw).1

theorem Follows.inFrame (hs : k.Ready s) (pos : Option Position) {x y : Run α}
    (body : ∀ u, k.Ready u → k.Follows u x y Q) :
    k.Follows s (Run.inFrame pos x) (Run.inFrame pos y) Q := by
  have pushed := push_without (k := k) s
  cases entered : s.push with
  | error f =>
    rw [entered] at pushed
    refine .error ((Error.ofFault f).withPosition pos) s ?_ ?_ (.refl hs)
    · rw [Run.inFrame, entered]
    · rw [Run.inFrame, pushed]
      rfl
  | ok u =>
    rw [entered] at pushed
    cases body u (hs.push entered) with
    | ok a v run same keeps holds =>
      obtain ⟨w, left, left', kept⟩ := keeps.pop hs entered
      refine .ok a w ?_ ?_ kept holds
      · rw [Run.inFrame, entered]
        dsimp only
        rw [run]
        exact Run.bind_of_ok (by rw [Run.leave, left])
      · rw [Run.inFrame, pushed]
        dsimp only [Except.map]
        rw [same]
        exact Run.bind_of_ok (by rw [Run.leave, left'])
    | error e v run same keeps =>
      obtain ⟨w, left, left', kept⟩ := keeps.pop hs entered
      refine .error e w ?_ ?_ kept
      · rw [Run.inFrame, entered]
        dsimp only
        rw [run]
        exact Run.bind_of_ok (by rw [Run.leave, left])
      · rw [Run.inFrame, pushed]
        dsimp only [Except.map]
        rw [same]
        exact Run.bind_of_ok (by rw [Run.leave, left'])

end Stranger

end Gapscript
