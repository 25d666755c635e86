import Gapscript.Proofs.Run.Bindings
import Mathlib.Data.List.Perm.Subperm

/-!
# The watches along a journey

A watch has seen one value for each of its variables, and names each of them once. Watches stand
outermost first, so those that a frame takes with it when it is left are the last ones, and all
others keep their places. The watches marked as firing are those whose bodies are running, each once.
`Rewatches` says what a move can do to the watches; from it follows that moves preserve all this.
-/

namespace Gapscript

/-! ## Lists of watches -/

/-- A watch has seen a value for each of its variables, and names each once. -/
structure Watch.WellFormed (w : Watch) : Prop where
  seen : w.snapshot.length = w.deps.length
  distinct : w.deps.Nodup

/-- Among watches that stand outermost first, those up to a height keep their places when the
others are dropped. -/
theorem getElem?_filter_height {ws : List Watch} (nested : (ws.map (·.height)).Pairwise (· ≤ ·)) (depth i : Nat) :
    (ws.filter fun w => w.height ≤ depth)[i]? = ws[i]?.filter fun w => w.height ≤ depth := by
  induction ws generalizing i with
  | nil => rfl
  | cons w ws ih =>
    rw [List.map_cons, List.pairwise_cons] at nested
    by_cases low : w.height ≤ depth
    · rw [List.filter_cons_of_pos (by simpa using low)]
      cases i with
      | zero => simp [low, Option.filter_some]
      | succ i => simpa using ih nested.2 i
    · have none_low : ∀ v ∈ w :: ws, ¬ v.height ≤ depth := by
        refine List.forall_mem_cons.2 ⟨low, fun v hv => ?_⟩
        have := nested.1 v.height (List.mem_map_of_mem hv)
        omega
      rw [List.filter_eq_nil_iff.2 fun v hv => by simpa using none_low v hv]
      cases hv : (w :: ws)[i]? with
      | none => rfl
      | some v => simp [none_low v (List.mem_of_getElem? hv), Option.filter_some]

/-! ## What a move does to the watches -/

/-- What a move can do to the watches, and to the list of those being fired. -/
inductive Rewatches (m : Moment) (d : Deed) (m' : Moment) : Prop
  | same (watches : m'.state.watches = m.state.watches) (firings : m'.firings = m.firings)
    (depth : m.state.depth ≤ m'.state.depth) (calm : ∀ i, d ≠ .fire i)
  | watch (bs : List Branch) (deps : List String) (line : Int) (distinct : deps.Nodup)
    (watches : m'.state.watches =
      m.state.watches ++ [⟨bs, deps, m.state.valuesOf deps, false, line, m.state.depth⟩])
    (firings : m'.firings = m.firings) (depth : m'.state.depth = m.state.depth) (calm : d = .watch)
  | leave (watches : m'.state.watches = m.state.watches.filter fun w => w.height ≤ m'.state.depth)
    (firings : m'.firings = m.firings) (depth : m.state.depth = m'.state.depth + 1)
    (above : ∀ f ∈ m.firings, f.depth ≤ m'.state.depth) (what : d = .leave m.state.depth)
  | fire (i : Nat) (w : Watch) (here : m.state.watches[i]? = some w) (idle : w.firing = false)
    (changed : differ (m.state.valuesOf w.deps) w.snapshot = true)
    (watches : m'.state.watches =
      m.state.watches.set i { w with snapshot := m.state.valuesOf w.deps, firing := true })
    (firings : m'.firings = ⟨i, m.state.depth⟩ :: m.firings) (depth : m'.state.depth = m.state.depth)
    (what : d = .fire i)
  | depend (f : Firing) (fs : List Firing) (w : Watch) (deps : List String)
    (here : m.state.watches[f.index]? = some w) (grows : Reading.Grows w.deps deps)
    (watches : m'.state.watches =
      m.state.watches.set f.index { w with deps := deps, snapshot := m.state.valuesOf deps })
    (before : m.firings = f :: fs) (firings : m'.firings = m.firings)
    (depth : m'.state.depth = m.state.depth) (calm : d = .depend f.index)
  | rest (f : Firing) (fs : List Firing)
    (watches : m'.state.watches = m.state.watches.modify f.index fun w => { w with firing := false })
    (before : m.firings = f :: fs) (after : m'.firings = fs) (depth : m'.state.depth = m.state.depth)
    (calm : d = .rest f.index)

section Moves

variable {host : Host} {m m' : Moment} {d : Deed}

theorem watches_modifyTop (s : State) (f : Frame → Frame) : (s.modifyTop f).watches = s.watches := by
  unfold State.modifyTop
  cases s.frames with
  | nil => rfl
  | cons top rest => rfl

theorem watches_declareHoisted (s : State) (name : String) (value : Value) (m : Mutability) (life : LifeTime)
    (line : Int) : (s.declareHoisted name value m life line).watches = s.watches := by
  unfold State.declareHoisted
  cases value with
  | _ => exact watches_modifyTop _ _

theorem watches_bindParams (s : State) (params : List String) (args : List Value) :
    (bindParams params args s).watches = s.watches := by
  induction params generalizing args s with
  | nil => rfl
  | cons p ps ih =>
    cases args with
    | nil => rfl
    | cons v vs => exact (ih _ vs).trans (watches_modifyTop s _)

theorem sameBindings_quiet (natives : ∀ f ∈ host.functions, f.KeepsBindings) {s t : State} (hs : s.Balanced)
    (h : Quiet host s t) : t.watches = s.watches ∧ t.depth = s.depth := by
  cases h with
  | define fn => exact ⟨watches_modifyTop s _, (State.sameStack_define hs fn).depth⟩
  | native f call known =>
    have kept := (natives f known call s hs).1
    exact ⟨kept.watches, kept.depth⟩
  | _ => exact ⟨rfl, rfl⟩

/-- Everything a move can do to the watches. -/
theorem rewatches_moves (natives : ∀ f ∈ host.functions, f.KeepsBindings) (balanced : m.state.Balanced)
    (h : Moves host m d m') : Rewatches m d m' := by
  cases h with
  | other fs quiet =>
    obtain ⟨watches, depth⟩ := sameBindings_quiet natives balanced quiet
    exact .same watches rfl (Nat.le_of_eq depth.symm) fun _ he => nomatch he
  | declare s fs h v | imply s fs name v unknown =>
    refine .same (watches_modifyTop s _) rfl (Nat.le_of_eq ?_) fun _ he => nomatch he
    exact (State.sameStack_modifyTop balanced _).depth.symm
  | hoist s fs h v =>
    refine .same (watches_declareHoisted s _ _ _ _ _) rfl (Nat.le_of_eq ?_) fun _ he => nomatch he
    exact (State.sameStack_declareHoisted balanced _ _ _ _ _).depth.symm
  | assign s fs name mode old rhs new found permitted combined =>
    exact .same rfl rfl (Nat.le_refl _) fun _ he => nomatch he
  | write s fs root ref key v access editable =>
    exact .same rfl rfl (Nat.le_refl _) fun _ he => nomatch he
  | watch s fs bs deps line distinct => exact .watch bs deps line distinct rfl rfl rfl rfl
  | @enter s u fs params args pushed =>
    have entered := balanced.push pushed
    have depth := (State.sameStack_bindParams entered params args).depth
    obtain ⟨-, rfl⟩ := State.push_eq_ok pushed
    exact .same (watches_bindParams _ params args) rfl (by rw [depth]; exact Nat.le_succ _) fun _ he => nomatch he
  | @leave s u fs popped above =>
    obtain ⟨top, before, depth, limit, watches⟩ := State.pop_eq_some popped
    refine .leave watches rfl depth (fun f hf => ?_) rfl
    have := above f hf
    change f.depth ≤ u.depth
    omega
  | fire s fs i w here idle changed =>
    refine .fire i w here idle changed ?_ rfl rfl rfl
    change (s.watches.modify i _).modify i _ = s.watches.set i _
    change s.watches[i]? = some w at here
    rw [List.modify_modify_eq, List.modify_eq_set, here]
    rfl
  | depend s fs f w deps here grows =>
    refine .depend f fs w deps here grows ?_ rfl rfl rfl rfl
    change s.watches.modify f.index _ = s.watches.set f.index _
    change s.watches[f.index]? = some w at here
    rw [List.modify_eq_set, here]
    rfl
  | rest s fs f => exact .rest f fs rfl rfl rfl rfl rfl

end Moves

/-! ## The invariant -/

/-- Every watch is well formed and belongs to one of the frames; watches stand outermost first. -/
structure State.Orderly (s : State) : Prop where
  formed : ∀ w ∈ s.watches, w.WellFormed
  nested : (s.watches.map (·.height)).Pairwise (· ≤ ·)
  attached : ∀ w ∈ s.watches, w.height ≤ s.depth

/-- The watches are in order, those marked as firing are the ones that are being fired, and each of
these is fired once, in a frame that does not outlive the watch. -/
structure Moment.Sound (m : Moment) : Prop where
  balanced : m.state.Balanced
  orderly : m.state.Orderly
  marked : ∀ i w, m.state.watches[i]? = some w → (w.firing = true ↔ i ∈ m.fired)
  once : m.fired.Nodup
  present : ∀ f ∈ m.firings, ∃ w, m.state.watches[f.index]? = some w ∧ w.height ≤ f.depth

theorem length_valuesOf (s : State) (names : List String) : (s.valuesOf names).length = names.length :=
  List.length_map _

theorem map_height_set {ws : List Watch} {i : Nat} {w v : Watch} (here : ws[i]? = some w)
    (height : v.height = w.height) : (ws.set i v).map (·.height) = ws.map (·.height) := by
  refine List.ext_getElem? fun j => ?_
  rw [List.getElem?_map, List.getElem?_map, List.getElem?_set]
  by_cases same : i = j
  · subst same
    have within := (List.getElem?_eq_some_iff.1 here).1
    rw [if_pos rfl, if_pos within, here, Option.map_some, Option.map_some, height]
  · rw [if_neg same]

/-- A watch may be replaced by a well-formed one of the same frame. -/
theorem State.Orderly.set {s t : State} (h : s.Orderly) {i : Nat} {w v : Watch} (here : s.watches[i]? = some w)
    (formed : v.WellFormed) (height : v.height = w.height) (watches : t.watches = s.watches.set i v)
    (depth : t.depth = s.depth) : t.Orderly := by
  refine ⟨fun x hx => ?_, ?_, fun x hx => ?_⟩
  · rw [watches] at hx
    rcases List.mem_or_eq_of_mem_set hx with old | rfl
    · exact h.formed x old
    · exact formed
  · rw [watches, map_height_set here height]
    exact h.nested
  · rw [watches] at hx
    rw [depth]
    rcases List.mem_or_eq_of_mem_set hx with old | rfl
    · exact h.attached x old
    · rw [height]
      exact h.attached w (List.mem_of_getElem? here)

section Sound

variable {host : Host} {m m' : Moment} {d : Deed}

theorem Moment.Sound.index_lt (h : m.Sound) {i : Nat} (hi : i ∈ m.fired) : i < m.state.watches.length := by
  obtain ⟨f, hf, rfl⟩ := List.mem_map.1 hi
  obtain ⟨w, found, -⟩ := h.present f hf
  exact (List.getElem?_eq_some_iff.1 found).1

/-- As many watches are being fired at most as there are. -/
theorem Moment.Sound.length_fired_le (h : m.Sound) : m.fired.length ≤ m.state.watches.length := by
  have within : m.fired ⊆ List.range m.state.watches.length := fun i hi => List.mem_range.2 (h.index_lt hi)
  have := (List.Nodup.subperm h.once within).length_le
  rwa [List.length_range] at this

theorem Moment.Sound.of_same (hm : m.Sound) (balanced : m'.state.Balanced)
    (watches : m'.state.watches = m.state.watches) (firings : m'.firings = m.firings)
    (depth : m.state.depth ≤ m'.state.depth) : m'.Sound := by
  have fired : m'.fired = m.fired := congrArg (List.map Firing.index) firings
  refine ⟨balanced, ⟨?_, ?_, ?_⟩, ?_, ?_, ?_⟩
  · rw [watches]
    exact hm.orderly.formed
  · rw [watches]
    exact hm.orderly.nested
  · rw [watches]
    exact fun w hw => Nat.le_trans (hm.orderly.attached w hw) depth
  · rw [watches, fired]
    exact hm.marked
  · rw [fired]
    exact hm.once
  · rw [watches, firings]
    exact hm.present

/-- A new watch comes last, in the innermost frame. -/
theorem Moment.Sound.append (hm : m.Sound) (balanced : m'.state.Balanced) {w : Watch} (formed : w.WellFormed)
    (idle : w.firing = false) (height : w.height = m.state.depth)
    (watches : m'.state.watches = m.state.watches ++ [w]) (firings : m'.firings = m.firings)
    (depth : m'.state.depth = m.state.depth) : m'.Sound := by
  have fired : m'.fired = m.fired := congrArg (List.map Firing.index) firings
  refine ⟨balanced, ⟨?_, ?_, ?_⟩, fun i v hv => ?_, ?_, ?_⟩
  · rw [watches, List.forall_mem_append, List.forall_mem_singleton]
    exact ⟨hm.orderly.formed, formed⟩
  · rw [watches, List.map_append, List.pairwise_append]
    refine ⟨hm.orderly.nested, List.pairwise_singleton _ _, fun a ha b hb => ?_⟩
    obtain ⟨v, hv, rfl⟩ := List.mem_map.1 ha
    rw [List.map_singleton, List.mem_singleton] at hb
    rw [hb, height]
    exact hm.orderly.attached v hv
  · rw [watches, depth, List.forall_mem_append, List.forall_mem_singleton]
    exact ⟨hm.orderly.attached, Nat.le_of_eq height⟩
  · rw [watches] at hv
    rw [fired]
    rcases Nat.lt_or_ge i m.state.watches.length with old | new
    · rw [List.getElem?_append_left old] at hv
      exact hm.marked i v hv
    · rw [List.getElem?_append_right new] at hv
      have last := List.mem_singleton.1 (List.mem_of_getElem? hv)
      refine iff_of_false (by simp [last, idle]) fun hi => ?_
      have := hm.index_lt hi
      omega
  · rw [fired]
    exact hm.once
  · rw [watches, firings]
    intro f hf
    obtain ⟨v, found, low⟩ := hm.present f hf
    have within := (List.getElem?_eq_some_iff.1 found).1
    exact ⟨v, by rw [List.getElem?_append_left within]; exact found, low⟩

/-- A frame that is left takes its watches with it, and none of them is being fired. -/
theorem Moment.Sound.filter (hm : m.Sound) (balanced : m'.state.Balanced)
    (watches : m'.state.watches = m.state.watches.filter fun w => w.height ≤ m'.state.depth)
    (firings : m'.firings = m.firings) (above : ∀ f ∈ m.firings, f.depth ≤ m'.state.depth) : m'.Sound := by
  have fired : m'.fired = m.fired := congrArg (List.map Firing.index) firings
  have place := getElem?_filter_height hm.orderly.nested m'.state.depth
  rw [← watches] at place
  refine ⟨balanced, ⟨?_, ?_, ?_⟩, fun i w hw => ?_, ?_, fun f hf => ?_⟩
  · rw [watches]
    exact fun w hw => hm.orderly.formed w (List.mem_filter.1 hw).1
  · rw [watches]
    exact hm.orderly.nested.sublist (List.filter_sublist.map _)
  · rw [watches]
    intro w hw
    simpa using (List.mem_filter.1 hw).2
  · rw [place] at hw
    rw [fired]
    exact hm.marked i w (Option.filter_eq_some_iff.1 hw).1
  · rw [fired]
    exact hm.once
  · rw [firings] at hf
    obtain ⟨w, found, low⟩ := hm.present f hf
    have kept : w.height ≤ m'.state.depth := Nat.le_trans low (above f hf)
    exact ⟨w, by rw [place, found]; simp [kept, Option.filter_some], low⟩

/-- A watch is replaced by another one of its frame, and the marks follow the firings. -/
theorem Moment.Sound.set (hm : m.Sound) (balanced : m'.state.Balanced) {i : Nat} {w v : Watch}
    (here : m.state.watches[i]? = some w) (formed : v.WellFormed) (height : v.height = w.height)
    (watches : m'.state.watches = m.state.watches.set i v) (depth : m'.state.depth = m.state.depth)
    (marked : v.firing = true ↔ i ∈ m'.fired) (others : ∀ j, i ≠ j → (j ∈ m'.fired ↔ j ∈ m.fired))
    (once : m'.fired.Nodup)
    (present : ∀ f ∈ m'.firings, ∃ x, m.state.watches[f.index]? = some x ∧ x.height ≤ f.depth) :
    m'.Sound := by
  have within := (List.getElem?_eq_some_iff.1 here).1
  refine ⟨balanced, hm.orderly.set here formed height watches depth, fun j x hx => ?_, once, fun f hf => ?_⟩
  · rw [watches, List.getElem?_set] at hx
    by_cases same : i = j
    · rw [if_pos same, if_pos within] at hx
      cases hx
      exact same ▸ marked
    · rw [if_neg same] at hx
      rw [hm.marked j x hx, others j same]
  · obtain ⟨x, found, low⟩ := present f hf
    rw [watches, List.getElem?_set]
    by_cases same : i = f.index
    · rw [← same, here] at found
      cases found
      rw [if_pos same, if_pos within]
      exact ⟨v, rfl, by rw [height]; exact low⟩
    · rw [if_neg same]
      exact ⟨x, found, low⟩

/-- Moves keep the watches in order. -/
theorem sound_moves (natives : ∀ f ∈ host.functions, f.KeepsBindings) (hm : m.Sound) (h : Moves host m d m') :
    m'.Sound := by
  have balanced := balanced_moves natives hm.balanced h
  cases rewatches_moves natives hm.balanced h with
  | same watches firings depth calm => exact hm.of_same balanced watches firings depth
  | watch bs deps line distinct watches firings depth calm =>
    exact hm.append balanced ⟨length_valuesOf _ _, distinct⟩ rfl rfl watches firings depth
  | leave watches firings depth above what => exact hm.filter balanced watches firings above
  | fire i w here idle changed watches firings depth what =>
    have fired : m'.fired = i :: m.fired := congrArg (List.map Firing.index) firings
    have unmarked : i ∉ m.fired := by simp [← hm.marked i w here, idle]
    have old := List.mem_of_getElem? here
    have formed : Watch.WellFormed { w with snapshot := m.state.valuesOf w.deps, firing := true } :=
      ⟨length_valuesOf _ _, (hm.orderly.formed w old).distinct⟩
    refine hm.set balanced here formed rfl watches depth (by simp [fired]) (fun j other => ?_) ?_ ?_
    · simp [fired, Ne.symm other]
    · rw [fired]
      exact List.nodup_cons.2 ⟨unmarked, hm.once⟩
    · rw [firings, List.forall_mem_cons]
      exact ⟨⟨w, here, hm.orderly.attached w old⟩, hm.present⟩
  | depend f fs w deps here grows watches before firings depth calm =>
    have fired : m'.fired = m.fired := congrArg (List.map Firing.index) firings
    have known := (hm.orderly.formed w (List.mem_of_getElem? here)).distinct
    have formed : Watch.WellFormed { w with deps := deps, snapshot := m.state.valuesOf deps } :=
      ⟨length_valuesOf _ _, grows.2 known⟩
    refine hm.set balanced here formed rfl watches depth ?_ (fun j other => by rw [fired]) ?_ ?_
    · rw [fired]
      exact hm.marked f.index w here
    · rw [fired]
      exact hm.once
    · rw [firings]
      exact hm.present
  | rest f fs watches before after depth calm =>
    have fired : m.fired = f.index :: m'.fired := by rw [Moment.fired, Moment.fired, before, after]; rfl
    have once := hm.once
    rw [fired, List.nodup_cons] at once
    obtain ⟨w, here, -⟩ := hm.present f (by simp [before])
    have old := hm.orderly.formed w (List.mem_of_getElem? here)
    have formed : Watch.WellFormed { w with firing := false } := ⟨old.seen, old.distinct⟩
    rw [List.modify_eq_set, here] at watches
    refine hm.set balanced here formed rfl watches depth (by simpa using once.1) (fun j other => ?_) once.2 ?_
    · simp [fired, Ne.symm other]
    · rw [after]
      exact fun g hg => hm.present g (by simp [before, hg])

theorem sound_journey (natives : ∀ f ∈ host.functions, f.KeepsBindings) {ds : List (Deed × Moment)}
    (h : Journey host m ds m') (hm : m.Sound) : m'.Sound ∧ ∀ e ∈ ds, e.2.Sound :=
  h.invariant (fun hm h => sound_moves natives hm h) hm

/-! ## One watch through a journey -/

/-- A look does nothing to a watch that is being fired or finds its variables as it last saw them. -/
theorem checkWatch_of_calm (host : Host) (inner : Inner) {s : State} {i : Nat} {w : Watch}
    (here : s.watches[i]? = some w) (calm : (!w.firing && differ (s.valuesOf w.deps) w.snapshot) = false) :
    checkWatch host inner i s = .ok () s := by
  rw [checkWatch, Run.get_bind, here]
  dsimp only
  rw [calm]
  rfl

/-- The watch is still at its place, with its branches, its line and its frame, and what it depends on
has grown at the end only. -/
def Watch.KeptAt (w : Watch) (i : Nat) (s : State) : Prop :=
  ∃ w', s.watches[i]? = some w' ∧ w'.shape = w.shape ∧ w.deps <+: w'.deps

/-- Leaving a frame keeps the watches of the frames below where they are. -/
theorem Moment.Sound.getElem?_of_leave (hm : m.Sound) {i : Nat} {w : Watch} (here : m.state.watches[i]? = some w)
    (other : w.height ≠ m.state.depth) (depth : m.state.depth = m'.state.depth + 1)
    (watches : m'.state.watches = m.state.watches.filter fun w => w.height ≤ m'.state.depth) :
    m'.state.watches[i]? = some w := by
  have attached := hm.orderly.attached w (List.mem_of_getElem? here)
  have kept : w.height ≤ m'.state.depth := by omega
  rw [watches, getElem?_filter_height hm.orderly.nested, here]
  simp [kept, Option.filter_some]

/-- A watch is kept until its frame is left. -/
theorem watch_moves (natives : ∀ f ∈ host.functions, f.KeepsBindings) (hm : m.Sound) (h : Moves host m d m')
    {i : Nat} {w : Watch} (here : m.state.watches[i]? = some w) (stays : d ≠ .leave w.height) :
    w.KeptAt i m'.state := by
  unfold Watch.KeptAt
  have within := (List.getElem?_eq_some_iff.1 here).1
  -- Replacing the watch of an index matters to the watch of that index only.
  have replaced {j : Nat} {x y : Watch} (found : m.state.watches[j]? = some x) (shape : y.shape = x.shape)
      (grows : x.deps <+: y.deps) :
      ∃ w', (m.state.watches.set j y)[i]? = some w' ∧ w'.shape = w.shape ∧ w.deps <+: w'.deps := by
    rw [List.getElem?_set]
    by_cases same : j = i
    · subst same
      rw [found] at here
      cases here
      rw [if_pos rfl, if_pos within]
      exact ⟨y, rfl, shape, grows⟩
    · rw [if_neg same]
      exact ⟨w, here, rfl, List.prefix_rfl⟩
  cases rewatches_moves natives hm.balanced h with
  | same watches firings depth calm =>
    rw [watches]
    exact ⟨w, here, rfl, List.prefix_rfl⟩
  | watch bs deps line distinct watches firings depth calm =>
    rw [watches, List.getElem?_append_left within]
    exact ⟨w, here, rfl, List.prefix_rfl⟩
  | leave watches firings depth above what =>
    have other : w.height ≠ m.state.depth := fun he => stays (by rw [what, he])
    exact ⟨w, hm.getElem?_of_leave here other depth watches, rfl, List.prefix_rfl⟩
  | fire j x found idle changed watches firings depth what =>
    rw [watches]
    exact replaced found rfl List.prefix_rfl
  | depend f fs x deps found grows watches before firings depth calm =>
    rw [watches]
    exact replaced found rfl grows.1
  | rest f fs watches before after depth calm =>
    obtain ⟨x, found, -⟩ := hm.present f (by simp [before])
    rw [watches, List.modify_eq_set, found]
    exact replaced found rfl List.prefix_rfl

theorem watch_journey (natives : ∀ f ∈ host.functions, f.KeepsBindings) {ds : List (Deed × Moment)}
    (h : Journey host m ds m') (hm : m.Sound) {i : Nat} {w : Watch} (here : m.state.watches[i]? = some w)
    (stays : ∀ e ∈ ds, e.1 ≠ .leave w.height) : w.KeptAt i m'.state := by
  induction h generalizing w with
  | stay m => exact ⟨w, here, rfl, List.prefix_rfl⟩
  | move first rest ih =>
    rw [List.forall_mem_cons] at stays
    obtain ⟨w₁, there, shape, grows⟩ := watch_moves natives hm first here stays.1
    have height : w.shape.height = w₁.shape.height := congrArg Watch.height shape.symm
    change w.height = w₁.height at height
    rw [height] at stays
    obtain ⟨w₂, there', shape', grows'⟩ := ih (sound_moves natives hm first) there stays.2
    exact ⟨w₂, there', shape'.trans shape, grows.trans grows'⟩

/-- A watch that is not being fired, and finds its variables as it last saw them, is not fired and
stays as it is. -/
theorem watch_moves_of_unchanged (natives : ∀ f ∈ host.functions, f.KeepsBindings) (hm : m.Sound)
    (h : Moves host m d m') {i : Nat} {w : Watch} (here : m.state.watches[i]? = some w)
    (unfired : i ∉ m.fired) (stays : d ≠ .leave w.height)
    (seen : differ (m.state.valuesOf w.deps) w.snapshot = false) :
    d ≠ .fire i ∧ m'.state.watches[i]? = some w ∧ i ∉ m'.fired := by
  have within := (List.getElem?_eq_some_iff.1 here).1
  have still (firings : m'.firings = m.firings) : i ∉ m'.fired := by
    rw [Moment.fired, firings]
    exact unfired
  cases rewatches_moves natives hm.balanced h with
  | same watches firings depth calm =>
    exact ⟨calm i, by rw [watches]; exact here, still firings⟩
  | watch bs deps line distinct watches firings depth calm =>
    exact ⟨by simp [calm], by rw [watches, List.getElem?_append_left within]; exact here, still firings⟩
  | leave watches firings depth above what =>
    have other : w.height ≠ m.state.depth := fun he => stays (by rw [what, he])
    exact ⟨by simp [what], hm.getElem?_of_leave here other depth watches, still firings⟩
  | fire j x found idle changed watches firings depth what =>
    have other : j ≠ i := by
      rintro rfl
      rw [found] at here
      cases here
      rw [seen] at changed
      cases changed
    refine ⟨by simpa [what] using other, by rw [watches, List.getElem?_set, if_neg other]; exact here, ?_⟩
    rw [Moment.fired, firings]
    exact fun hi => (List.mem_cons.1 hi).elim (fun he => other he.symm) unfired
  | depend f fs x deps found grows watches before firings depth calm =>
    have other : f.index ≠ i := by
      rintro rfl
      exact unfired (by simp [Moment.fired, before])
    exact ⟨by simp [calm], by rw [watches, List.getElem?_set, if_neg other]; exact here, still firings⟩
  | rest f fs watches before after depth calm =>
    have other : f.index ≠ i := by
      rintro rfl
      exact unfired (by simp [Moment.fired, before])
    refine ⟨by simp [calm], ?_, fun hi => unfired ?_⟩
    · rw [watches, List.getElem?_modify]
      simp [other, here]
    · rw [Moment.fired, before]
      rw [Moment.fired, after] at hi
      exact List.mem_cons_of_mem _ hi

end Sound

end Gapscript
