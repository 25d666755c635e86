import Gapscript.Proofs.Run.Watches
import Gapscript.Proofs.Value.Equality

/-!
# Watches fire on change

A look at a watch compares the values of its variables with those it saw last. Where they are the very
same values it comes down to NaN, the one value that is not strictly equal to itself: with a variable
that is NaN the watch is fired at every look, and without one it is not fired. What a watch saw last is
what its variables were when it was attached, fired or given more of them, so between two firings one of
its variables changes or is NaN.
-/

namespace Gapscript

/-! ## What a look compares -/

/-- Of two lists of the same values, the values that are NaN differ from themselves. -/
theorem differ_of_same {vs ws : List Value} (same : List.Forall₂ Value.Same vs ws) :
    differ vs ws = vs.any Value.isNaN := by
  induction same with
  | nil => rfl
  | @cons v w vs ws first _ ih =>
    have here : v.strictEq w = !v.isNaN := by
      rw [Bool.eq_iff_iff, Value.strictEq_iff, Bool.not_eq_true']
      exact and_iff_right first
    rw [differ, here, Bool.not_not, ih, List.any_cons]

/-- Two lists differ where two values at one place are not strictly equal. -/
theorem differ_iff {vs ws : List Value} : differ vs ws = true ↔ ∃ p ∈ vs.zip ws, p.1.strictEq p.2 = false := by
  induction vs generalizing ws with
  | nil => simp [differ]
  | cons v vs ih =>
    cases ws with
    | nil => simp [differ]
    | cons w ws => simp [differ, ih]

namespace Watch

/-- Every variable of the watch has the very value that the watch saw last. -/
def Unchanged (w : Watch) (s : State) : Prop := List.Forall₂ Value.Same (s.valuesOf w.deps) w.snapshot

/-- A variable of the watch is NaN. -/
def seesNaN (w : Watch) (s : State) : Bool := (s.valuesOf w.deps).any Value.isNaN

variable {w : Watch} {s t : State}

theorem Unchanged.differ_eq (h : w.Unchanged s) : differ (s.valuesOf w.deps) w.snapshot = w.seesNaN s :=
  differ_of_same h

/-- What a watch finds changed has another value, or is NaN. -/
theorem changed_or_seesNaN (h : differ (s.valuesOf w.deps) w.snapshot = true) :
    ¬ w.Unchanged s ∨ w.seesNaN s = true := by
  by_cases same : w.Unchanged s
  · exact .inr (same.differ_eq.symm.trans h)
  · exact .inl same

/-- A watch finds a variable changed if its value is not strictly equal to what the watch saw last. -/
theorem changed_of_strictEq {name : String} {seen : Value} (saw : (name, seen) ∈ w.deps.zip w.snapshot)
    (other : (s.valueOf name).strictEq seen = false) : differ (s.valuesOf w.deps) w.snapshot = true := by
  refine differ_iff.2 ⟨(s.valueOf name, seen), ?_, other⟩
  rw [State.valuesOf, List.zip_map_left]
  exact List.mem_map_of_mem (f := Prod.map s.valueOf id) saw

/-- A well-formed watch has seen a value of each of its variables. -/
theorem WellFormed.exists_seen (h : w.WellFormed) {name : String} (known : name ∈ w.deps) :
    ∃ seen, (name, seen) ∈ w.deps.zip w.snapshot := by
  obtain ⟨i, here⟩ := List.mem_iff_getElem?.1 known
  have within : i < w.snapshot.length := h.seen ▸ (List.getElem?_eq_some_iff.1 here).1
  have seen : w.snapshot[i]? = some w.snapshot[i] := List.getElem?_eq_getElem within
  exact ⟨_, List.mem_of_getElem? (List.getElem?_zip_eq_some.2 ⟨here, seen⟩)⟩

/-- Variables that keep the very values they have do not concern the watch. -/
theorem Unchanged.of_same (h : w.Unchanged s) (same : ∀ name, (t.valueOf name).Same (s.valueOf name)) :
    w.Unchanged t := by
  rw [Unchanged, State.valuesOf, List.forall₂_map_left_iff] at h ⊢
  exact h.imp fun name v found => (same name).trans found

theorem seesNaN_of_same (same : ∀ name, (t.valueOf name).Same (s.valueOf name)) :
    w.seesNaN t = w.seesNaN s := by
  rw [seesNaN, seesNaN, State.valuesOf, State.valuesOf, List.any_map, List.any_map]
  exact congrArg (List.any w.deps) (funext fun name => (same name).isNaN)

end Watch

section Looks

variable {host : Host} {inner : Inner} {s : State} {i : Nat} {w : Watch}

theorem checkWatch_of_changed (here : s.watches[i]? = some w) (idle : w.firing = false)
    (changed : differ (s.valuesOf w.deps) w.snapshot = true) :
    checkWatch host inner i s =
      fireWatch host inner i w (s.modifyWatch i fun v => { v with snapshot := s.valuesOf w.deps }) := by
  rw [checkWatch, Run.get_bind, here]
  dsimp only
  rw [idle, changed]
  rfl

/-- The watch is being fired, or its variables have the values it saw last and none of them is NaN. -/
def Watch.Calm (w : Watch) (s : State) : Prop := w.firing = true ∨ (w.Unchanged s ∧ w.seesNaN s = false)

theorem checkWatch_of_unchanged (here : s.watches[i]? = some w) (calm : w.Calm s) :
    checkWatch host inner i s = .ok () s := by
  refine checkWatch_of_calm host inner here ?_
  rcases calm with firing | ⟨same, none_NaN⟩
  · rw [firing, Bool.not_true, Bool.false_and]
  · rw [same.differ_eq, none_NaN, Bool.and_false]

/-- Where nothing has changed, a look at all watches does nothing. -/
theorem checkWatches_of_unchanged (calm : ∀ w ∈ s.watches, w.Calm s) :
    checkWatches host inner s = .ok () s := by
  have go (count i : Nat) : checkWatchesFrom host inner i count s = .ok () s := by
    induction count generalizing i with
    | zero => rfl
    | succ count ih =>
      have look : checkWatch host inner i s = .ok () s := by
        cases here : s.watches[i]? with
        | none =>
          rw [checkWatch, Run.get_bind, here]
          rfl
        | some w => exact checkWatch_of_unchanged here (calm w (List.mem_of_getElem? here))
      exact (Run.bind_of_ok look).trans (ih (i + 1))
  exact go s.watches.length 0

end Looks

/-! ## Setting a variable to the value it has -/

theorem State.liveIn_assign (s : State) (f : Frame) (name other : String) (value : Value) :
    s.liveIn { f with vars := Frame.assign name value f.vars } other =
      if other = name then (s.liveIn f other).map fun v => { v with value := value }
      else s.liveIn f other := by
  unfold State.liveIn Frame.binding?
  rw [find?_assign]
  split
  · rw [Option.filter_map]
    rfl
  · rfl

/-- Assigning to a name changes the value of its innermost live variable. -/
theorem State.lookupVariable_assign (s : State) (name other : String) (value : Value) :
    (s.assign name value).lookupVariable other =
      if other = name then (s.lookupVariable other).map fun v => { v with value := value }
      else s.lookupVariable other := by
  have go (fs : List Frame) : (s.assignIn name value fs).findSome? (s.liveIn · other) =
      if other = name then (fs.findSome? (s.liveIn · other)).map fun v => { v with value := value }
      else fs.findSome? (s.liveIn · other) := by
    induction fs with
    | nil => simp [State.assignIn]
    | cons f fs ih =>
      rw [State.assignIn, List.findSome?_cons]
      cases live : s.liveIn f name with
      | none =>
        rw [if_neg (by simp), List.findSome?_cons, ih]
        by_cases same : other = name
        · rw [same, live]
        · rw [if_neg same, if_neg same]
      | some v =>
        rw [if_pos (by simp), List.findSome?_cons, State.liveIn_assign]
        by_cases same : other = name
        · rw [if_pos same, if_pos same, same, live]
          rfl
        · rw [if_neg same, if_neg same]
  exact go s.frames

/-- Assigning to a variable leaves the value that is given back, and nothing else changes. -/
theorem eq_of_assignName {name : String} {mode : AssignMode} {rhs v : Value} {old : Variable} {s t : State}
    (ran : assignName name mode rhs s = .ok v t) (found : s.lookupVariable name = some old) :
    t = s.assign name v := by
  rw [assignName, Run.get_bind, found] at ran
  dsimp only at ran
  cases allowed : mode.permitted name old.mutability with
  | error f => rw [allowed] at ran; cases ran
  | ok _ =>
    cases combined : mode.combine s.heap old.value rhs with
    | error f => rw [allowed, combined] at ran; cases ran
    | ok new =>
      rw [allowed, combined] at ran
      cases ran
      rfl

theorem State.valueOf_assign {s : State} {name : String} {old : Variable}
    (found : s.lookupVariable name = some old) (value : Value) (other : String) :
    (s.assign name value).valueOf other = if other = name then value else s.valueOf other := by
  rw [State.valueOf, State.valueOf, State.lookupVariable_assign]
  by_cases this : other = name
  · rw [if_pos this, if_pos this, this, found]
    rfl
  · rw [if_neg this, if_neg this]

/-- A variable that is assigned the value it has keeps it, and so does every other one. -/
theorem same_of_assignName {name : String} {mode : AssignMode} {rhs v : Value} {old : Variable} {s t : State}
    (ran : assignName name mode rhs s = .ok v t) (found : s.lookupVariable name = some old)
    (same : v.Same old.value) (other : String) : (t.valueOf other).Same (s.valueOf other) := by
  rw [eq_of_assignName ran found, State.valueOf_assign found]
  by_cases this : other = name
  · rw [if_pos this, this, State.valueOf, found]
    exact same
  · rw [if_neg this]
    exact .refl _

/-! ## Along a journey -/

section Journey

variable {host : Host} {m m' : Moment} {d : Deed} {ds : List (Deed × Moment)} {i : Nat} {w : Watch}

/-- A watch is fired when it finds a variable changed, or NaN. -/
theorem changed_of_fire (h : Moves host m (.fire i) m') :
    ∃ w, m.state.watches[i]? = some w ∧ w.firing = false ∧
      (¬ w.Unchanged m.state ∨ w.seesNaN m.state = true) := by
  cases h with
  | fire s fs i w here idle changed => exact ⟨w, here, idle, Watch.changed_or_seesNaN changed⟩

/-- As long as the variables of a watch have the values it saw last, and none of them is NaN, it is not
fired. -/
theorem watch_journey_of_unchanged (natives : ∀ f ∈ host.functions, f.KeepsBindings)
    (h : Journey host m ds m') (hm : m.Sound) (here : m.state.watches[i]? = some w) (unfired : i ∉ m.fired)
    (stays : ∀ e ∈ ds, e.1 ≠ .leave w.height)
    (calm : ∀ e ∈ m :: ds.map (·.2), w.Unchanged e.state ∧ w.seesNaN e.state = false) :
    (∀ e ∈ ds, e.1 ≠ .fire i) ∧ m'.state.watches[i]? = some w := by
  induction h with
  | stay m => exact ⟨fun _ he => (nomatch he), here⟩
  | move first rest ih =>
    rw [List.forall_mem_cons] at stays
    rw [List.map_cons, List.forall_mem_cons] at calm
    have seen := calm.1.1.differ_eq.trans calm.1.2
    obtain ⟨idle, there, unfired'⟩ := watch_moves_of_unchanged natives hm first here unfired stays.1 seen
    obtain ⟨idle', rest⟩ := ih (sound_moves natives hm first) there unfired' stays.2 calm.2
    exact ⟨List.forall_mem_cons.2 ⟨idle, idle'⟩, rest⟩

/-- Firing a watch, or giving it more variables, changes no variable. -/
theorem valuesOf_of_looked (h : Moves host m d m') (looks : d = .fire i ∨ d = .depend i)
    (names : List String) : m'.state.valuesOf names = m.state.valuesOf names := by
  cases h with
  | fire | depend => rfl
  | _ => rcases looks with he | he <;> cases he

/-- A watch keeps what it saw last until it is fired or given more variables; then it sees what its
variables are. -/
theorem seen_moves (natives : ∀ f ∈ host.functions, f.KeepsBindings) (hm : m.Sound) (h : Moves host m d m')
    (here : m.state.watches[i]? = some w) (stays : d ≠ .leave w.height) :
    ∃ w', m'.state.watches[i]? = some w' ∧ w'.height = w.height ∧
      (w'.deps = w.deps ∧ w'.snapshot = w.snapshot ∨ w'.snapshot = m'.state.valuesOf w'.deps) := by
  have within := (List.getElem?_eq_some_iff.1 here).1
  -- Replacing the watch of an index matters to the watch of that index only.
  have replaced {j : Nat} {x y : Watch} (found : m.state.watches[j]? = some x) (height : y.height = x.height)
      (seen : y.deps = x.deps ∧ y.snapshot = x.snapshot ∨ y.snapshot = m'.state.valuesOf y.deps) :
      ∃ w', (m.state.watches.set j y)[i]? = some w' ∧ w'.height = w.height ∧
        (w'.deps = w.deps ∧ w'.snapshot = w.snapshot ∨ w'.snapshot = m'.state.valuesOf w'.deps) := by
    rw [List.getElem?_set]
    by_cases same : j = i
    · subst same
      rw [found] at here
      cases here
      rw [if_pos rfl, if_pos within]
      exact ⟨y, rfl, height, seen⟩
    · rw [if_neg same]
      exact ⟨w, here, rfl, .inl ⟨rfl, rfl⟩⟩
  cases rewatches_moves natives hm.balanced h with
  | same watches firings depth calm =>
    rw [watches]
    exact ⟨w, here, rfl, .inl ⟨rfl, rfl⟩⟩
  | watch bs deps line distinct watches firings depth calm =>
    rw [watches, List.getElem?_append_left within]
    exact ⟨w, here, rfl, .inl ⟨rfl, rfl⟩⟩
  | leave watches firings depth above what =>
    have other : w.height ≠ m.state.depth := fun he => stays (by rw [what, he])
    exact ⟨w, hm.getElem?_of_leave here other depth watches, rfl, .inl ⟨rfl, rfl⟩⟩
  | fire j x found idle changed watches firings depth what =>
    rw [watches]
    exact replaced found rfl (.inr (valuesOf_of_looked h (.inl what) _).symm)
  | depend f fs x deps found grows watches before firings depth calm =>
    rw [watches]
    exact replaced found rfl (.inr (valuesOf_of_looked h (.inr calm) _).symm)
  | rest f fs watches before after depth calm =>
    obtain ⟨x, found, -⟩ := hm.present f (by simp [before])
    rw [watches, List.modify_eq_set, found]
    exact replaced found rfl (.inl ⟨rfl, rfl⟩)

/-- The watch saw last what its variables were at one of some moments. -/
def Watch.SawAt (w : Watch) (ms : List Moment) : Prop :=
  ∃ e ∈ ms, w.snapshot = e.state.valuesOf w.deps

theorem seen_journey (natives : ∀ f ∈ host.functions, f.KeepsBindings) (h : Journey host m ds m')
    (hm : m.Sound) (here : m.state.watches[i]? = some w) (stays : ∀ e ∈ ds, e.1 ≠ .leave w.height)
    {ms : List Moment} (seen : w.SawAt ms) :
    ∃ w', m'.state.watches[i]? = some w' ∧ w'.SawAt (ms ++ ds.map (·.2)) := by
  induction h generalizing w ms with
  | stay m =>
    rw [List.map_nil, List.append_nil]
    exact ⟨w, here, seen⟩
  | @move m m₁ m' d ds first rest ih =>
    rw [List.forall_mem_cons] at stays
    obtain ⟨w₁, there, height, looked⟩ := seen_moves natives hm first here stays.1
    rw [← height] at stays
    have seen₁ : w₁.SawAt (ms ++ [m₁]) := by
      rcases looked with ⟨deps, snapshot⟩ | now
      · obtain ⟨e, he, saw⟩ := seen
        exact ⟨e, List.mem_append_left _ he, by rw [snapshot, deps, saw]⟩
      · exact ⟨m₁, List.mem_append_right _ List.mem_cons_self, now⟩
    have rest := ih (sound_moves natives hm first) there stays.2 seen₁
    rwa [List.append_assoc] at rest

/-- Between two firings of a watch one of its variables changes, or is NaN: what the second one finds is
not what the variables were at one of the moments in between. -/
theorem changed_between_fires (natives : ∀ f ∈ host.functions, f.KeepsBindings) {m₀ m₁ m₂ m₃ : Moment}
    (fires : Moves host m₀ (.fire i) m₁) (between : Journey host m₁ ds m₂) (hm : m₁.Sound)
    (again : Moves host m₂ (.fire i) m₃)
    (stays : ∀ w, m₀.state.watches[i]? = some w → ∀ e ∈ ds, e.1 ≠ .leave w.height) :
    ∃ w, m₂.state.watches[i]? = some w ∧
      (w.seesNaN m₂.state = true ∨ ∃ e ∈ m₁ :: ds.map (·.2),
        ¬ List.Forall₂ Value.Same (m₂.state.valuesOf w.deps) (e.state.valuesOf w.deps)) := by
  obtain ⟨w₁, here, seen, stays⟩ : ∃ w₁, m₁.state.watches[i]? = some w₁ ∧ w₁.SawAt [m₁] ∧
      ∀ e ∈ ds, e.1 ≠ .leave w₁.height := by
    cases fires with
    | fire s fs i w here idle changed =>
      have fired : (s.firing i w).watches[i]? =
          some { w with snapshot := s.valuesOf w.deps, firing := true } := by
        change ((s.watches.modify i _).modify i _)[i]? = _
        rw [List.modify_modify_eq, List.getElem?_modify, here]
        simp
      exact ⟨_, fired, ⟨_, List.mem_singleton_self _, rfl⟩, stays w here⟩
  obtain ⟨w₂, there, saw⟩ := seen_journey natives between hm here stays seen
  obtain ⟨w, found, -, changed⟩ := changed_of_fire again
  rw [there] at found
  cases found
  obtain ⟨e, he, saw⟩ := saw
  refine ⟨w₂, there, ?_⟩
  rcases changed with other | nan
  · exact .inr ⟨e, he, fun same => other (by rw [Watch.Unchanged, saw]; exact same)⟩
  · exact .inl nan

end Journey

end Gapscript
