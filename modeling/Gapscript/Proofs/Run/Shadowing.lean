import Gapscript.Proofs.Run.Watches

/-!
# Watches and shadowing

A look at a watch finds the values that the innermost frame sees, while the variables of the watch
are those that its own frame sees. Where no live variable of a deeper frame has one of their names,
both are the same: then a watch that has seen what its frame sees is not fired, as long as nothing
changes up to its frame.
-/

namespace Gapscript

namespace State

/-- The live variable that the frame of a height binds to a name. -/
def liveAt (s : State) (height : Nat) (name : String) : Option Variable :=
  (Frame.ofHeight s.frames height).bind (s.liveIn · name)

/-- The value of a name as the frame of a height sees it: that of its own live variable, or else what
the frame below sees. -/
def valueFrom (s : State) (name : String) : (height : Nat) → Value
  | 0 => ((s.liveAt 0 name).map (·.value)).getD .undefined
  | height + 1 => ((s.liveAt (height + 1) name).map (·.value)).getD (s.valueFrom name height)

/-- Up to a height, the frames of two states have the same live variables with the same values. -/
def SameUpTo (s t : State) (height : Nat) : Prop :=
  ∀ h ≤ height, ∀ name, (t.liveAt h name).map (·.value) = (s.liveAt h name).map (·.value)

variable {s t : State} {name : String} {height : Nat}

theorem valueFrom_congr
    (h : ∀ k ≤ height, (t.liveAt k name).map (·.value) = (s.liveAt k name).map (·.value)) :
    t.valueFrom name height = s.valueFrom name height := by
  induction height with
  | zero => rw [valueFrom, valueFrom, h 0 (Nat.le_refl 0)]
  | succ height ih =>
    rw [valueFrom, valueFrom, h (height + 1) (Nat.le_refl _), ih fun k hk => h k (Nat.le_succ_of_le hk)]

/-- Frames without a live variable of the name see what the frame below them sees. -/
theorem valueFrom_of_unbound {high : Nat} (above : height ≤ high)
    (unbound : ∀ k, height < k → s.liveAt k name = none) :
    s.valueFrom name high = s.valueFrom name height := by
  induction above with
  | refl => rfl
  | @step high above ih =>
    rw [valueFrom, unbound (high + 1) (Nat.lt_succ_of_le above), ih]
    rfl

theorem valueOf_of_frames {f : Frame} {fs : List Frame} (h : s.frames = f :: fs) :
    s.valueOf name = s.valueFrom name fs.length := by
  induction fs generalizing f s with
  | nil =>
    have here : s.liveAt 0 name = s.liveIn f name := by
      rw [liveAt, h]
      rfl
    rw [List.length_nil, valueFrom, here, valueOf, lookupVariable, h, List.findSome?_cons]
    cases s.liveIn f name with
    | none => rfl
    | some v => rfl
  | cons g gs ih =>
    have here : s.liveAt (gs.length + 1) name = s.liveIn f name := by
      rw [liveAt, h, Frame.ofHeight_cons, if_pos List.length_cons.symm]
      rfl
    rw [List.length_cons, valueFrom, here, valueOf, lookupVariable, h, List.findSome?_cons]
    cases s.liveIn f name with
    | some v => rfl
    | none =>
      -- What the innermost frame does not bind is seen as if that frame were not there.
      have below := ih (s := { s with frames := g :: gs }) rfl
      refine Eq.trans below (valueFrom_congr fun k hk => ?_)
      have : k ≠ (g :: gs).length := by
        rw [List.length_cons]
        omega
      rw [liveAt, liveAt, h, Frame.ofHeight_cons f, if_neg this]
      rfl

/-- Names stand for what the innermost frame sees. -/
theorem Balanced.valueOf_eq (hs : s.Balanced) : s.valueOf name = s.valueFrom name s.depth := by
  obtain ⟨top, rest, frames, length⟩ := hs.frames_eq
  rw [← length]
  exact valueOf_of_frames frames

end State

namespace Watch

/-- No live variable above the frame of the watch has the name of one of its variables. -/
def Unshadowed (w : Watch) (s : State) : Prop :=
  ∀ name ∈ w.deps, ∀ height, w.height < height → s.liveAt height name = none

/-- The watch has last seen what its own frame sees. -/
def UpToDate (w : Watch) (s : State) : Prop :=
  differ (w.deps.map (s.valueFrom · w.height)) w.snapshot = false

/-- At some moments nothing has changed up to the frame of the watch since a state, and nothing
shadows its variables. -/
def Undisturbed (w : Watch) (s : State) (ms : List Moment) : Prop :=
  ∀ m ∈ ms, s.SameUpTo m.state w.height ∧ w.Unshadowed m.state

variable {w : Watch} {s t : State}

theorem UpToDate.of_sameUpTo (fresh : w.UpToDate s) (same : s.SameUpTo t w.height) : w.UpToDate t := by
  have seen : w.deps.map (t.valueFrom · w.height) = w.deps.map (s.valueFrom · w.height) :=
    List.map_congr_left fun name _ => State.valueFrom_congr fun k hk => same k hk name
  rw [UpToDate, seen]
  exact fresh

/-- An unshadowed watch finds what its own frame sees. -/
theorem Unshadowed.differ_eq (h : w.Unshadowed s) (fresh : w.UpToDate s) (balanced : s.Balanced)
    (attached : w.height ≤ s.depth) : differ (s.valuesOf w.deps) w.snapshot = false := by
  have seen : s.valuesOf w.deps = w.deps.map (s.valueFrom · w.height) := by
    refine List.map_congr_left fun name hn => ?_
    rw [balanced.valueOf_eq, State.valueFrom_of_unbound attached (h name hn)]
  rw [seen]
  exact fresh

end Watch

/-- A look at an unshadowed watch that has seen what its frame sees does nothing. -/
theorem checkWatch_of_unshadowed (host : Host) (inner : Inner) {s : State} {i : Nat} {w : Watch}
    (here : s.watches[i]? = some w) (unshadowed : w.Unshadowed s) (fresh : w.UpToDate s)
    (balanced : s.Balanced) (attached : w.height ≤ s.depth) : checkWatch host inner i s = .ok () s := by
  have same := unshadowed.differ_eq fresh balanced attached
  exact checkWatch_of_calm host inner here (by rw [same, Bool.and_false])

section Journey

variable {host : Host} {m m' : Moment} {ds : List (Deed × Moment)}

/-- As long as nothing changes up to the frame of a watch and nothing shadows it, it is not fired and
stays as it is. -/
theorem watch_journey_of_unshadowed (natives : ∀ f ∈ host.functions, f.KeepsBindings)
    (h : Journey host m ds m') (hm : m.Sound) {i : Nat} {w : Watch} {s : State}
    (here : m.state.watches[i]? = some w) (unfired : i ∉ m.fired) (fresh : w.UpToDate s)
    (stays : ∀ e ∈ ds, e.1 ≠ .leave w.height)
    (calm : w.Undisturbed s (m :: ds.map (·.2))) :
    (∀ e ∈ ds, e.1 ≠ .fire i) ∧ m'.state.watches[i]? = some w ∧ i ∉ m'.fired ∧ w.UpToDate m'.state := by
  induction h with
  | stay m =>
    obtain ⟨same, -⟩ := calm m List.mem_cons_self
    exact ⟨fun _ he => (nomatch he), here, unfired, fresh.of_sameUpTo same⟩
  | move first rest ih =>
    rw [List.forall_mem_cons] at stays
    rw [Watch.Undisturbed, List.map_cons, List.forall_mem_cons] at calm
    obtain ⟨same, unshadowed⟩ := calm.1
    have attached := hm.orderly.attached w (List.mem_of_getElem? here)
    have seen := unshadowed.differ_eq (fresh.of_sameUpTo same) hm.balanced attached
    obtain ⟨idle, there, unfired'⟩ := watch_moves_of_unchanged natives hm first here unfired stays.1 seen
    obtain ⟨idle', rest⟩ := ih (sound_moves natives hm first) there unfired' stays.2 calm.2
    exact ⟨List.forall_mem_cons.2 ⟨idle, idle'⟩, rest⟩

end Journey

end Gapscript
