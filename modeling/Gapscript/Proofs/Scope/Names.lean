import Gapscript.Proofs.Run.Bindings

/-!
# The names in force

A frame has at most one variable of a name: binding a name again replaces what it was bound to. In such
frames the names that are listed are those that a look-up finds (`mem_visibleNames_iff`). No move gives a
frame a second variable of a name (`keyed_moves`).
-/

namespace Gapscript

/-! ## Frames keyed by names -/

/-- No two variables of the frame have the same name. -/
def Frame.Keyed (f : Frame) : Prop := (f.vars.map (·.name)).Nodup

/-- No two variables of a frame have the same name. -/
def State.Keyed (s : State) : Prop := ∀ f ∈ s.frames, f.Keyed

namespace Frame

theorem mem_names_putVariable {v : Variable} {vars : List Variable} {name : String} :
    name ∈ (putVariable v vars).map (·.name) ↔ name = v.name ∨ name ∈ vars.map (·.name) := by
  induction vars with
  | nil => simp [putVariable]
  | cons w ws ih =>
    rw [putVariable]
    split
    · next same => simp [same]
    · rw [List.map_cons, List.mem_cons, ih, List.map_cons, List.mem_cons]
      exact or_left_comm

theorem Keyed.put {f : Frame} (h : f.Keyed) (v : Variable) : Keyed { f with vars := putVariable v f.vars } := by
  obtain ⟨vars, funcs⟩ := f
  change ((putVariable v vars).map (·.name)).Nodup
  change (vars.map (·.name)).Nodup at h
  induction vars with
  | nil => simp [putVariable]
  | cons w ws ih =>
    obtain ⟨fresh, distinct⟩ := List.nodup_cons.1 h
    rw [putVariable]
    split
    · next same =>
      rw [List.map_cons, ← same]
      exact h
    · next other =>
      refine List.nodup_cons.2 ⟨fun again => ?_, ih distinct⟩
      rcases mem_names_putVariable.1 again with same | known
      · exact other same
      · exact fresh known

theorem names_assign (name : String) (value : Value) (vars : List Variable) :
    (assign name value vars).map (·.name) = vars.map (·.name) := by
  induction vars with
  | nil => rfl
  | cons w ws ih =>
    rw [assign]
    split
    · rfl
    · rw [List.map_cons, ih, List.map_cons]

theorem Keyed.binding?_eq {f : Frame} (h : f.Keyed) {v : Variable} (hv : v ∈ f.vars) :
    f.binding? v.name = some v := by
  obtain ⟨vars, funcs⟩ := f
  change vars.find? (·.name = v.name) = some v
  change (vars.map (·.name)).Nodup at h
  induction vars with
  | nil => cases hv
  | cons w ws ih =>
    obtain ⟨fresh, distinct⟩ := List.nodup_cons.1 h
    rcases List.mem_cons.1 hv with rfl | later
    · simp
    · have other : w.name ≠ v.name := fun same => fresh (List.mem_map.2 ⟨v, later, same.symm⟩)
      rw [List.find?_cons_of_neg (by simpa using other)]
      exact ih later distinct

end Frame

/-! ## Names that are listed -/

namespace State

variable {s : State}

theorem mem_live_iff {f : Frame} (h : f.Keyed) (name : String) :
    name ∈ (f.vars.filter s.alive).map (·.name) ↔ s.liveIn f name ≠ none := by
  rw [Option.ne_none_iff_exists', liveIn]
  constructor
  · intro listed
    obtain ⟨v, live, rfl⟩ := List.mem_map.1 listed
    obtain ⟨known, alive⟩ := List.mem_filter.1 live
    exact ⟨v, Option.filter_eq_some_iff.2 ⟨h.binding?_eq known, alive⟩⟩
  · rintro ⟨v, found⟩
    obtain ⟨bound, alive⟩ := Option.filter_eq_some_iff.1 found
    have named : v.name = name := by simpa using List.find?_some bound
    exact List.mem_map.2 ⟨v, List.mem_filter.2 ⟨List.mem_of_find?_eq_some bound, alive⟩, named⟩

theorem mem_funcs_iff (f : Frame) (name : String) :
    name ∈ f.funcs.map (·.code.name) ↔ f.function? name ≠ none := by
  rw [Option.ne_none_iff_isSome, Frame.function?, List.find?_isSome, List.mem_map]
  simp

/-- The listed names are those of live variables that are found and of functions that are found. -/
theorem mem_visibleNames_iff (h : s.Keyed) (name : String) :
    name ∈ s.visibleNames ↔ s.lookupVariable name ≠ none ∨ s.lookupFunction name ≠ none := by
  have found {α : Type} (look : Frame → Option α) {fs : List Frame} :
      fs.findSome? look ≠ none ↔ ∃ f ∈ fs, look f ≠ none := by
    simp [List.findSome?_eq_none_iff]
  rw [visibleNames, List.mem_eraseDups, List.mem_flatMap, lookupVariable, lookupFunction, found, found,
    ← exists_or]
  refine exists_congr fun f => ?_
  rw [← and_or_left]
  refine and_congr_right fun hf => ?_
  rw [List.mem_append, mem_live_iff (h f hf), mem_funcs_iff]

/-! ## What keeps names apart -/

theorem Keyed.of_frames {t : State} (h : s.Keyed) (same : t.frames = s.frames) : t.Keyed := by
  unfold Keyed
  rwa [same]

theorem Keyed.modifyTop (h : s.Keyed) {f : Frame → Frame} (keeps : ∀ g : Frame, g.Keyed → (f g).Keyed) :
    (s.modifyTop f).Keyed := by
  unfold State.modifyTop
  split
  · next top rest frames =>
    unfold Keyed at h
    rw [frames] at h
    obtain ⟨here, later⟩ := List.forall_mem_cons.1 h
    exact List.forall_mem_cons.2 ⟨keeps top here, later⟩
  · exact List.forall_mem_singleton.2 (keeps {} List.nodup_nil)

theorem Keyed.put (h : s.Keyed) (v : Variable) :
    (s.modifyTop fun f => { f with vars := Frame.putVariable v f.vars }).Keyed :=
  h.modifyTop fun _ hg => Frame.Keyed.put hg v

theorem Keyed.declare (h : s.Keyed) (name : String) (value : Value) (m : Mutability) (life : LifeTime) :
    (s.declare name value m life).Keyed := h.put _

theorem Keyed.declareHoisted (h : s.Keyed) (name : String) (value : Value) (m : Mutability) (life : LifeTime)
    (line : Int) : (s.declareHoisted name value m life line).Keyed := by
  unfold State.declareHoisted
  cases value with
  | function f => exact put (s := { s with hoistedFunctions := f.id :: s.hoistedFunctions }) h _
  | _ => exact h.put _

theorem Keyed.define (h : s.Keyed) (fn : FunctionRef) : (s.define fn).Keyed := h.modifyTop fun _ hg => hg

theorem Keyed.assign (h : s.Keyed) (name : String) (value : Value) : (s.assign name value).Keyed := by
  have kept (fs : List Frame) (hfs : ∀ f ∈ fs, f.Keyed) : ∀ f ∈ s.assignIn name value fs, f.Keyed := by
    induction fs with
    | nil => exact hfs
    | cons f fs ih =>
      obtain ⟨here, later⟩ := List.forall_mem_cons.1 hfs
      rw [assignIn]
      split
      · refine List.forall_mem_cons.2 ⟨?_, later⟩
        change ((Frame.assign name value f.vars).map (·.name)).Nodup
        rw [Frame.names_assign]
        exact here
      · exact List.forall_mem_cons.2 ⟨here, ih later⟩
  exact kept s.frames h

theorem Keyed.push (h : s.Keyed) {u : State} (pushed : s.push = .ok u) : u.Keyed := by
  obtain ⟨-, rfl⟩ := State.push_eq_ok pushed
  exact List.forall_mem_cons.2 ⟨List.nodup_nil, h⟩

theorem Keyed.pop (h : s.Keyed) {u : State} (popped : s.pop? = some u) : u.Keyed := by
  obtain ⟨top, before, -⟩ := State.pop_eq_some popped
  unfold Keyed at h
  rw [before] at h
  exact (List.forall_mem_cons.1 h).2

theorem Keyed.bindParams (h : s.Keyed) (params : List String) (args : List Value) :
    (bindParams params args s).Keyed := by
  induction params generalizing args s with
  | nil => exact h
  | cons p ps ih =>
    cases args with
    | nil => exact h
    | cons v vs => exact ih (h.declare p v .varVar .forever) vs

end State

variable {host : Host} {m m' : Moment} {d : Deed}

theorem keyed_quiet (natives : ∀ f ∈ host.functions, f.KeepsBindings) {s t : State} (hs : s.Balanced)
    (keyed : s.Keyed) (h : Quiet host s t) : t.Keyed := by
  cases h with
  | define fn => exact keyed.define fn
  | native f call known => exact keyed.of_frames (natives f known call s hs).1.frames
  | _ => exact keyed.of_frames rfl

theorem keyed_moves (natives : ∀ f ∈ host.functions, f.KeepsBindings) (balanced : m.state.Balanced)
    (keyed : m.state.Keyed) (h : Moves host m d m') : m'.state.Keyed := by
  cases h with
  | other fs quiet => exact keyed_quiet natives balanced keyed quiet
  | declare s fs h v => exact (State.Keyed.declare keyed _ _ _ _).of_frames rfl
  | hoist s fs h v => exact (State.Keyed.declareHoisted keyed _ _ _ _ _).of_frames rfl
  | imply s fs name v unknown => exact (State.Keyed.declare keyed _ _ _ _).of_frames rfl
  | assign s fs name mode old rhs new found permitted combined => exact State.Keyed.assign keyed name new
  | enter fs params args pushed => exact (State.Keyed.push keyed pushed).bindParams params args
  | leave fs popped above => exact State.Keyed.pop keyed popped
  | write | watch | fire | depend | rest => exact State.Keyed.of_frames keyed rfl

/-- Names are kept apart at every moment of a journey. -/
theorem keyed_journey (natives : ∀ f ∈ host.functions, f.KeepsBindings) {ds : List (Deed × Moment)}
    (h : Journey host m ds m') (balanced : m.state.Balanced) (keyed : m.state.Keyed) :
    m'.state.Keyed ∧ ∀ e ∈ ds, e.2.state.Keyed := by
  have step {m d m'} (inv : m.state.Balanced ∧ m.state.Keyed) (first : Moves host m d m') :
      m'.state.Balanced ∧ m'.state.Keyed :=
    ⟨balanced_moves natives inv.1 first, keyed_moves natives inv.1 inv.2 first⟩
  have both := h.invariant step ⟨balanced, keyed⟩
  exact ⟨both.1.2, fun e he => (both.2 e he).2⟩

end Gapscript
