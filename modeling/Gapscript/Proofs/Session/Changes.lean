import Gapscript.Proofs.Run.Changes
import Gapscript.Proofs.Session.Journeys

/-!
# The watches of an interpreter fire on change

A look does nothing to a watch whose variables have the very values it saw last, unless one of them is
NaN, and setting a variable to the value it has leaves every watch that way. Along every request a watch
is fired only where it finds a variable changed or NaN, and between two of its firings a variable changes
or is NaN; so two looks in a row fire a watch twice only if what ran for the watches did that.
-/

namespace Gapscript

/-- On a journey watches are fired on change: a watch is fired where it finds a variable changed or NaN;
it is not fired as long as its variables have the values it saw last and none is NaN; and between two of
its firings a variable changes, or is NaN. -/
structure Journey.OnChange (host : Host) (start : Moment) (ds : List (Deed × Moment)) : Prop where
  fired : ∀ m j m', Journey.Part host start ds m [(.fire j, m')] m' →
    ∃ w, m.state.watches[j]? = some w ∧ w.firing = false ∧
      (¬ w.Unchanged m.state ∨ w.seesNaN m.state = true)
  rests : ∀ m during m', Journey.Part host start ds m during m' →
    ∀ (j : Nat) w, m.state.watches[j]? = some w → j ∉ m.fired → (∀ e ∈ during, e.1 ≠ .leave w.height) →
      (∀ e ∈ m :: during.map (·.2), w.Unchanged e.state ∧ w.seesNaN e.state = false) →
      (∀ e ∈ during, e.1 ≠ .fire j) ∧ m'.state.watches[j]? = some w
  again : ∀ m₁ between m₂, Journey.Part host start ds m₁ between m₂ →
    ∀ j m₀ m₃, Moves host m₀ (.fire j) m₁ → Moves host m₂ (.fire j) m₃ →
      (∀ w, m₀.state.watches[j]? = some w → ∀ e ∈ between, e.1 ≠ .leave w.height) →
      ∃ w, m₂.state.watches[j]? = some w ∧
        (w.seesNaN m₂.state = true ∨ ∃ e ∈ m₁ :: between.map (·.2),
          ¬ List.Forall₂ Value.Same (m₂.state.valuesOf w.deps) (e.state.valuesOf w.deps))

theorem onChange_of_sound {host : Host} (natives : ∀ f ∈ host.functions, f.KeepsBindings) {start : Moment}
    (sound : start.Sound) (ds : List (Deed × Moment)) : Journey.OnChange host start ds where
  fired := by
    rintro m j m' ⟨before, after, -, -, journey⟩
    cases journey with
    | move first rest => exact changed_of_fire first
  rests := by
    rintro m during m' ⟨before, after, -, reached, journey⟩ j w here unfired stays calm
    have sound := (sound_journey natives reached sound).1
    exact watch_journey_of_unchanged natives journey sound here unfired stays calm
  again := by
    rintro m₁ between m₂ ⟨before, after, -, reached, journey⟩ j m₀ m₃ fires again stays
    have sound := (sound_journey natives reached sound).1
    exact changed_between_fires natives fires journey sound again stays

open Interpreter in
/-- A watch that is not being fired and whose variables have the very values it saw last is fired by a
look exactly if one of them is NaN. Setting a variable to the value it has keeps those values, and along
every request, and through two looks in a row, watches are fired on change. -/
theorem unchanged_watches_rest {i : Interpreter} (hi : i.Reachable HostFunction.KeepsBindings) :
    (∀ endCloses n (s : State) (j : Nat) w, s.watches[j]? = some w → w.firing = false → w.Unchanged s →
      checkWatch (i.host endCloses) (innerAt (i.host endCloses) n) j s =
        if w.seesNaN s then
          fireWatch (i.host endCloses) (innerAt (i.host endCloses) n) j w
            (s.modifyWatch j fun v => { v with snapshot := s.valuesOf w.deps })
        else .ok () s) ∧
    (∀ endCloses n (s : State), (∀ w ∈ s.watches, w.Calm s) →
      checkWatches (i.host endCloses) (innerAt (i.host endCloses) n) s = .ok () s) ∧
    (∀ name mode rhs v old (s t : State), s.lookupVariable name = some old → v.Same old.value →
      assignName name mode rhs s = .ok v t → ∀ w : Watch, w.Unchanged s →
        w.Unchanged t ∧ w.seesNaN t = w.seesNaN s) ∧
    (∀ r, ∃ host start ds finish, i.Makes (i.serve r).2 host start ds finish ∧
      Journey.OnChange host ⟨start, []⟩ ds) ∧
    ∀ endCloses n (s : State), Moment.Sound ⟨s, []⟩ →
      let look := checkWatches (i.host endCloses) (innerAt (i.host endCloses) n)
      ∃ ds, Journey (i.host endCloses) ⟨s, []⟩ ds ⟨(do look; look : Run Unit).reached s, []⟩ ∧
        Journey.OnChange (i.host endCloses) ⟨s, []⟩ ds := by
  have idle := hi.idle_of_keepsBindings
  refine ⟨?_, fun endCloses n s calm => checkWatches_of_unchanged calm, ?_, fun r => ?_, ?_⟩
  · intro endCloses n s j w here rests same
    cases nan : w.seesNaN s with
    | true => exact checkWatch_of_changed here rests (same.differ_eq.trans nan)
    | false => exact checkWatch_of_unchanged here (.inr ⟨same, nan⟩)
  · intro name mode rhs v old s t found same ran w unchanged
    have kept := same_of_assignName ran found same
    exact ⟨unchanged.of_same kept, Watch.seesNaN_of_same kept⟩
  · obtain ⟨host, start, ds, finish, makes⟩ := idle.makes r
    have natives : ∀ f ∈ host.functions, f.KeepsBindings := makes.functions ▸ idle.natives
    obtain ⟨begun, -⟩ := makes.sound idle.natives hi.sound
    exact ⟨host, start, ds, finish, makes, onChange_of_sound natives begun ds⟩
  · intro endCloses n s sound look
    have bodies : (innerAt (i.host endCloses) n).Leads (i.host endCloses) := leads_innerAt idle.natives n
    have once (t : State) : look.Leads (i.host endCloses) [] t := leads_checkWatches bodies
    have under : s.Under [] := ⟨sound.balanced, fun f hf => nomatch hf⟩
    obtain ⟨-, ds, journey, -⟩ := (once s).bind (fun _ t _ => once t) under
    exact ⟨ds, journey, onChange_of_sound idle.natives sound ds⟩

/-- A variable that is set to the value it has does not fire its watch. -/
theorem unchanged_watches_rest_reset :
    let i := Interpreter.new {} false
    let x : Variable := ⟨"x", .bigint 1, .varVar, .forever, 1, false, LifeTime.forever.window 1 0⟩
    let w : Watch := ⟨[], ["x"], [.bigint 1], false, 2, 0⟩
    let s : State := { frames := [{ vars := [x] }], line := 3, watches := [w] }
    i.Reachable HostFunction.KeepsBindings ∧ s.lookupVariable "x" = some x ∧ w.Unchanged s ∧
      w.Unchanged (Run.reached (assignName "x" .plain (.bigint 1)) s) ∧
      checkWatch (i.host false) (innerAt (i.host false) 1) 0 s = .ok () s := by
  intro i x w s
  have reachable : i.Reachable HostFunction.KeepsBindings := .new {} false
  have found : s.lookupVariable "x" = some x := rfl
  have unchanged : w.Unchanged s := .cons (.refl _) .nil
  have ran : assignName "x" .plain (.bigint 1) s = .ok (.bigint 1) (s.assign "x" (.bigint 1)) := rfl
  obtain ⟨looks, -, resets, -⟩ := unchanged_watches_rest reachable
  refine ⟨reachable, found, unchanged, ?_, looks false 1 s 0 w rfl rfl unchanged⟩
  exact (resets "x" .plain _ _ x s _ found (.refl _) ran w unchanged).1

/-- A watch on a variable that is NaN is fired at every look: twice in a program that sets the variable
once, before the watch is there, and again by a look after it. -/
theorem nan_fires_watch :
    let i := ((Interpreter.new {} false).evaluate
      "var var x = NaN!\nwhen x \x7b \x7d else \x7b print fired! \x7d\nvar var y = 1n!" "").2
    i.Reachable HostFunction.KeepsBindings ∧ i.state.output = "fired\nfired\n" ∧
      (∃ w, i.state.watches = [w] ∧ w.firing = false ∧ w.Unchanged i.state) ∧
      (Run.reached (runWatches (i.host false)) i.state).output = "fired\nfired\nfired\n" := by
  intro i
  have reachable : i.Reachable HostFunction.KeepsBindings :=
    (Interpreter.Reachable.new {} false).serve (.source _ "")
  have ran : i.state.output = "fired\nfired\n" ∧ (i.state.valueOf "x").isNaN = true ∧
      i.state.watches.map (fun w => (w.deps, w.snapshot.map Value.isNaN, w.firing)) =
        [(["x"], [true], false)] ∧
      (Run.reached (runWatches (i.host false)) i.state).output = "fired\nfired\nfired\n" := by
    decide +kernel
  obtain ⟨output, current, shape, looked⟩ := ran
  obtain ⟨w, watches, here⟩ := List.map_eq_singleton_iff.1 shape
  rw [Prod.mk.injEq, Prod.mk.injEq] at here
  obtain ⟨deps, snapshot, idle⟩ := here
  refine ⟨reachable, output, ⟨w, watches, idle, ?_⟩, looked⟩
  obtain ⟨v, saw, nan⟩ := List.map_eq_singleton_iff.1 snapshot
  rw [Watch.Unchanged, deps, saw]
  exact .cons (.of_isNaN current nan) .nil

end Gapscript
