import Gapscript.Proofs.Run.Upheld

/-!
# The stack of frames

A state is balanced when its depth counts the frames above the global one and a positive limit
bounds it. Steps keep the height of the stack, and a frame that is entered from a balanced state can
be left again: so a run from a balanced state passes through balanced states only, ends on the
height it started from, and never tries to leave the global frame.
-/

namespace Gapscript

namespace State

variable {s t u v w : State}

/-- The depth counts the frames above the global one, and a positive limit bounds it. -/
structure Balanced (s : State) : Prop where
  height : s.frames.length = s.depth + 1
  limit : 0 < s.maxDepth → (s.depth : Int) ≤ s.maxDepth

/-- The stacks of two states have the same height and the same limit. -/
structure SameStack (s t : State) : Prop where
  height : t.frames.length = s.frames.length
  depth : t.depth = s.depth
  limit : t.maxDepth = s.maxDepth

theorem SameStack.refl (s : State) : s.SameStack s := ⟨rfl, rfl, rfl⟩

theorem SameStack.trans (h : s.SameStack t) (h' : t.SameStack u) : s.SameStack u :=
  ⟨h'.height.trans h.height, h'.depth.trans h.depth, h'.limit.trans h.limit⟩

theorem SameStack.balanced (h : s.SameStack t) (hs : s.Balanced) : t.Balanced := by
  constructor
  · rw [h.height, h.depth, hs.height]
  · rw [h.limit, h.depth]
    exact hs.limit

/-! ## What keeps the stack -/

theorem sameStack_modifyTop (hs : s.Balanced) (f : Frame → Frame) : s.SameStack (s.modifyTop f) := by
  unfold modifyTop
  cases hf : s.frames with
  | nil =>
    have := hs.height
    rw [hf] at this
    cases this
  | cons top rest => exact ⟨by rw [hf]; rfl, rfl, rfl⟩

theorem sameStack_define (hs : s.Balanced) (fn : FunctionRef) : s.SameStack (s.define fn) :=
  sameStack_modifyTop hs _

theorem sameStack_record (s : State) (r : Record) : s.SameStack (s.record r) := ⟨rfl, rfl, rfl⟩

theorem length_assignIn (s : State) (name : String) (value : Value) (fs : List Frame) :
    (s.assignIn name value fs).length = fs.length := by
  induction fs with
  | nil => rfl
  | cons f fs ih =>
    rw [assignIn]
    split
    · rfl
    · rw [List.length_cons, ih, List.length_cons]

theorem sameStack_assign (s : State) (name : String) (value : Value) :
    s.SameStack (s.assign name value) := ⟨s.length_assignIn name value s.frames, rfl, rfl⟩

theorem sameStack_declareHoisted (hs : s.Balanced) (name : String) (value : Value) (m : Mutability)
    (life : LifeTime) (line : Int) : s.SameStack (s.declareHoisted name value m life line) := by
  unfold declareHoisted
  -- Binding a function first notes that it is hoisted, which leaves the frames alone.
  cases value with
  | function f =>
    have noted : s.SameStack { s with hoistedFunctions := f.id :: s.hoistedFunctions } := ⟨rfl, rfl, rfl⟩
    exact noted.trans (sameStack_modifyTop (noted.balanced hs) _)
  | _ => exact sameStack_modifyTop hs _

/-! ## Entering and leaving -/

theorem push_eq_ok (h : s.push = .ok u) :
    ¬ (s.maxDepth > 0 ∧ (s.depth : Int) ≥ s.maxDepth) ∧
      u = { s with frames := {} :: s.frames, depth := s.depth + 1 } := by
  unfold push at h
  split at h
  · cases h
  · next room =>
    cases h
    exact ⟨room, rfl⟩

/-- The limit refuses a frame only when the stack is as high as it allows. -/
theorem Balanced.depth_of_refused (hs : s.Balanced) {f : TypeFault} (h : s.push = .error f) :
    0 < s.maxDepth ∧ (s.depth : Int) = s.maxDepth := by
  unfold State.push at h
  split at h
  · next full =>
    have within := hs.limit full.1
    exact ⟨full.1, by omega⟩
  · cases h

theorem Balanced.push (hs : s.Balanced) (h : s.push = .ok u) : u.Balanced := by
  obtain ⟨room, rfl⟩ := push_eq_ok h
  constructor
  · change s.frames.length + 1 = s.depth + 1 + 1
    rw [hs.height]
  · intro limited
    change ((s.depth + 1 : Nat) : Int) ≤ s.maxDepth
    have := not_and.1 room limited
    omega

/-- A frame that was entered can be left once the stack is as high again, and then it is as high as
before it was entered. -/
theorem pop_of_push (entered : s.push = .ok u) (inside : u.SameStack v) :
    ∃ w, v.pop? = some w ∧ s.SameStack w := by
  obtain ⟨-, rfl⟩ := push_eq_ok entered
  have depth : v.depth = s.depth + 1 := inside.depth
  have height : v.frames.length = s.frames.length + 1 := inside.height
  have limit : v.maxDepth = s.maxDepth := inside.limit
  unfold pop?
  rw [depth]
  cases hf : v.frames with
  | nil => rw [hf] at height; cases height
  | cons top rest =>
    rw [hf] at height
    exact ⟨_, rfl, Nat.succ_inj.1 height, rfl, limit⟩

end State

/-! ## Native functions -/

/-- Called in a state that meets `Pre`, a native function ends in a state related by `Change` and
fails only with what `Raised` permits. -/
def HostFunction.Obeys (Pre : State → Prop) (Change : State → State → Prop) (Raised : Error → Prop)
    (f : HostFunction) : Prop :=
  ∀ call s, Pre s →
    Change s (Run.reached (f.handler call) s) ∧
      ∀ e, Run.failure? (f.handler call) s = some e → Raised e

/-- The failure of an attempt to leave the global frame. -/
def Error.RefusedPop (e : Error) : Prop := ∃ pos, e = .runtime ⟨.other State.popRefused, pos⟩

/-- A native function that neither enters nor leaves frames when it is called in a balanced state. In
any other state it may do anything, since it is never called there. -/
def HostFunction.KeepsFrames (f : HostFunction) : Prop :=
  f.Obeys State.Balanced State.SameStack fun e => ¬ e.RefusedPop

/-- A step keeps the stack. -/
theorem sameStack_step {host : Host} (natives : ∀ f ∈ host.functions, f.KeepsFrames) {s t : State}
    (hs : s.Balanced) (h : Step host s t) : s.SameStack t := by
  cases h with
  | declare name v m life => exact State.sameStack_modifyTop hs _
  | declareHoisted name v m life line => exact State.sameStack_declareHoisted hs name v m life line
  | define fn => exact State.sameStack_define hs fn
  | record r => exact s.sameStack_record r
  | assign name mode old rhs new => exact s.sameStack_assign name new
  | native f call known => exact (natives f known call s hs).1
  | _ => exact ⟨rfl, rfl, rfl⟩

/-! ## Trails -/

/-- A way from one state to another by single steps and by frames that are entered and left again.
Every state on it satisfies `V`. -/
inductive Trail (host : Host) (V : State → Prop) : State → State → Prop
  | stay {s : State} (here : V s) : Trail host V s s
  | step {s t u : State} (here : V s) (first : Step host s t) (rest : Trail host V t u) :
    Trail host V s u
  | frame {s u v w t : State} (here : V s) (entered : s.push = .ok u) (inside : Trail host V u v)
    (left : v.pop? = some w) (rest : Trail host V w t) : Trail host V s t

namespace Trail

variable {host : Host} {V : State → Prop} {s t u : State}

theorem finish (h : Trail host V s t) : V t := by
  induction h with
  | stay here => exact here
  | step _ _ _ ih => exact ih
  | frame _ _ _ _ _ _ ih => exact ih

theorem trans (h : Trail host V s t) (h' : Trail host V t u) : Trail host V s u := by
  induction h with
  | stay _ => exact h'
  | step here first _ ih => exact .step here first (ih h')
  | frame here entered inside left _ _ ih => exact .frame here entered inside left (ih h')

theorem mono {W : State → Prop} (h : Trail host V s t) (weaken : ∀ {u}, V u → W u) :
    Trail host W s t := by
  induction h with
  | stay here => exact .stay (weaken here)
  | step here first _ ih => exact .step (weaken here) first ih
  | frame here entered _ left _ inside rest => exact .frame (weaken here) entered inside left rest

theorem sameStack (natives : ∀ f ∈ host.functions, f.KeepsFrames) (h : Trail host State.Balanced s t) :
    s.SameStack t := by
  induction h with
  | stay _ => exact .refl _
  | step here first _ ih => exact (sameStack_step natives here first).trans ih
  | frame here entered _ left _ inside rest =>
    obtain ⟨w', left', same⟩ := State.pop_of_push entered inside
    rw [left] at left'
    cases left'
    exact same.trans rest

end Trail

/-! ## The contract -/

namespace Contract

variable {host : Host} (natives : ∀ f ∈ host.functions, f.KeepsFrames)

theorem not_refusedPop_of_ordinary {e : Error} (h : Ordinary e) : ¬ e.RefusedPop := by
  rintro ⟨pos, rfl⟩
  cases h

theorem not_refusedPop_withPosition {e : Error} (pos : Option Position) (h : ¬ e.RefusedPop) :
    ¬ (e.withPosition pos).RefusedPop := by
  obtain same | ⟨cause, rfl, placed⟩ := e.withPosition_cases pos
  · rw [same]
    exact h
  · rw [placed]
    rintro ⟨place, he⟩
    cases he
    exact h ⟨none, rfl⟩

/-- From a balanced state, a run stays among balanced states and never tries to leave the global
frame. -/
def frames : Contract host where
  Pre := State.Balanced
  Change := Trail host State.Balanced
  Raised e := ¬ e.RefusedPop
  refl := .stay
  trans := .trans
  stable _ h := h.finish
  step hs h := .step hs h (.stay ((sameStack_step natives hs h).balanced hs))
  ordinary := not_refusedPop_of_ordinary
  located := not_refusedPop_withPosition
  native hf _ _ _ hs := (natives _ hf _ _ hs).2 _

theorem encloses_frames : (frames natives).Encloses (frames natives) where
  enter hs entered := hs.push entered
  leave {s u v} hs entered inside := by
    obtain ⟨w, left, same⟩ := State.pop_of_push entered (inside.sameStack natives)
    rw [Run.leave, left]
    exact .frame hs entered inside left (.stay (same.balanced hs))
  raised h := h

theorem nested_frames (n : Nat) : (frames natives).Nested (innerAt host n) (innerAt host n) := by
  have exhausted : (frames natives).Raised .exhausted := by
    rintro ⟨pos, he⟩
    cases he
  exact ⟨frames natives, encloses_frames natives, bodies_innerAt (encloses_frames natives) exhausted n⟩

end Contract

end Gapscript
