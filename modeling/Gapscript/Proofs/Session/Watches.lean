import Gapscript.Proofs.Run.Shadowing
import Gapscript.Proofs.Session.Journeys

/-!
# The watches of an interpreter

At every moment of every request the watches are well formed, those marked as firing are the ones
whose bodies are running, and none is fired while it is marked; what a watch depends on grows only at
its end. Between requests no watch is marked, whatever the requests ended with.

A look at a watch finds its variables from the innermost frame. It is not fired while nothing changes
up to its own frame, provided that no live variable of a deeper frame has one of their names; a
variable that has, such as a parameter, does fire it.
-/

namespace Gapscript

namespace Interpreter

variable {i i' : Interpreter} {host : Host} {start finish : State} {ds : List (Deed × Moment)}

/-- A request keeps the watches that were there. -/
theorem Makes.watch (makes : i.Makes i' host start ds finish) (idle : i.Idle HostFunction.KeepsBindings)
    (sound : Moment.Sound ⟨i.state, []⟩) {j : Nat} {w : Watch} (here : i.state.watches[j]? = some w) :
    w.KeptAt j i'.state := by
  have natives : ∀ f ∈ host.functions, f.KeepsBindings := makes.functions ▸ idle.natives
  obtain ⟨begun, -⟩ := makes.sound idle.natives sound
  have attached : w.height ≤ i.state.depth := sound.orderly.attached w (List.mem_of_getElem? here)
  rw [idle.depth, Nat.le_zero] at attached
  obtain ⟨line, values, rfl⟩ := makes.started
  obtain ⟨values', typed, rfl⟩ := makes.finished
  exact watch_journey natives makes.journey begun here fun e he => attached ▸ makes.ne_leave e he

theorem unmarked_of_sound (sound : Moment.Sound ⟨i.state, []⟩) :
    ∀ w ∈ i.state.watches, w.WellFormed ∧ w.firing = false := by
  intro w hw
  obtain ⟨j, here⟩ := List.mem_iff_getElem?.1 hw
  have marked := sound.marked j w here
  refine ⟨sound.orderly.formed w hw, Bool.eq_false_iff.2 fun firing => ?_⟩
  exact nomatch marked.1 firing

end Interpreter

/-- A watch that a move fires was not being fired. -/
theorem Moment.Sound.not_fired {host : Host} {m m' : Moment} {j : Nat} (h : m.Sound)
    (fires : Moves host m (.fire j) m') :
    j ∉ m.fired ∧ ∃ w, m.state.watches[j]? = some w ∧ w.firing = false := by
  cases fires with
  | fire s fs i w here idle changed =>
    refine ⟨fun fired => ?_, w, here, idle⟩
    have firing := (h.marked j w here).2 fired
    rw [idle] at firing
    cases firing

/-- The watches of a reachable interpreter are in order at every moment of every request. -/
theorem watches_in_order {i : Interpreter} (hi : i.Reachable HostFunction.KeepsBindings) :
    (∀ w ∈ i.state.watches, w.WellFormed ∧ w.firing = false) ∧
    (∀ endCloses n (s : State) (j : Nat) w, s.watches[j]? = some w → w.firing = true →
      checkWatch (i.host endCloses) (innerAt (i.host endCloses) n) j s = .ok () s) ∧
    ∀ r,
      (∀ w ∈ (i.serve r).2.state.watches, w.WellFormed ∧ w.firing = false) ∧
      (∀ (j : Nat) w, i.state.watches[j]? = some w → w.KeptAt j (i.serve r).2.state) ∧
      ∃ host start ds finish, i.Makes (i.serve r).2 host start ds finish ∧
        ∀ m during m', Journey.Part host ⟨start, []⟩ ds m during m' →
          m.Sound ∧ m.fired.length ≤ m.state.watches.length ∧
          (∀ j, during = [(.fire j, m')] →
            j ∉ m.fired ∧ ∃ w, m.state.watches[j]? = some w ∧ w.firing = false) ∧
          ∀ (j : Nat) w, m.state.watches[j]? = some w → (∀ e ∈ during, e.1 ≠ .leave w.height) →
            w.KeptAt j m'.state := by
  have idle := hi.idle_of_keepsBindings
  refine ⟨Interpreter.unmarked_of_sound hi.sound, ?_, fun r => ⟨?_, ?_, ?_⟩⟩
  · intro endCloses n s j w here firing
    exact checkWatch_of_calm _ _ here (by rw [firing, Bool.not_true, Bool.false_and])
  · exact Interpreter.unmarked_of_sound (hi.serve r).sound
  · intro j w here
    obtain ⟨host, start, ds, finish, makes⟩ := idle.makes r
    exact makes.watch idle hi.sound here
  · obtain ⟨host, start, ds, finish, makes⟩ := idle.makes r
    have natives : ∀ f ∈ host.functions, f.KeepsBindings := makes.functions ▸ idle.natives
    obtain ⟨begun, -⟩ := makes.sound idle.natives hi.sound
    refine ⟨host, start, ds, finish, makes, ?_⟩
    rintro m during m' ⟨before, after, -, reached, journey⟩
    have sound := (sound_journey natives reached begun).1
    refine ⟨sound, sound.length_fired_le, ?_, ?_⟩
    · rintro j rfl
      cases journey with
      | move fires _ => exact sound.not_fired fires
    · intro j w here stays
      exact watch_journey natives journey sound here stays

/-- A watch whose body failed is not marked any more. -/
theorem watches_in_order_failure :
    ∃ i : Interpreter,
      i = ((Interpreter.new {} false).serve
        (.source "var var x = 1n!\nwhen x \x7b assert false! \x7d\nx = 2n!" "")).2 ∧
      i.state.watches.length = 1 ∧ i.Reachable HostFunction.KeepsBindings ∧
      (∀ w ∈ i.state.watches, w.WellFormed ∧ w.firing = false) ∧
      ∀ r, ∀ w ∈ (i.serve r).2.state.watches, w.WellFormed ∧ w.firing = false := by
  have fresh : (Interpreter.new {} false).Reachable HostFunction.KeepsBindings := .new {} false
  have reachable := fresh.serve (.source "var var x = 1n!\nwhen x \x7b assert false! \x7d\nx = 2n!" "")
  have watches : ((Interpreter.new {} false).serve
      (.source "var var x = 1n!\nwhen x \x7b assert false! \x7d\nx = 2n!" "")).2.state.watches.length = 1 := by
    decide +kernel
  obtain ⟨unmarked, -, served⟩ := watches_in_order reachable
  exact ⟨_, rfl, watches, reachable, unmarked, fun r => (served r).1⟩

/-- While nothing changes up to the frame of a watch and nothing shadows its variables, it is not
fired. -/
theorem unshadowed_watches_rest {i : Interpreter} (hi : i.Reachable HostFunction.KeepsBindings) :
    (∀ endCloses n (s : State) (j : Nat) w, s.Balanced → s.watches[j]? = some w → w.height ≤ s.depth →
      w.UpToDate s → w.Unshadowed s → checkWatch (i.host endCloses) (innerAt (i.host endCloses) n) j s = .ok () s) ∧
    ∀ r, ∃ host start ds finish, i.Makes (i.serve r).2 host start ds finish ∧
      ∀ m during m', Journey.Part host ⟨start, []⟩ ds m during m' →
        ∀ (j : Nat) w, m.state.watches[j]? = some w → j ∉ m.fired → w.UpToDate m.state →
          (∀ e ∈ during, e.1 ≠ .leave w.height) → w.Undisturbed m.state (m :: during.map (·.2)) →
          (∀ e ∈ during, e.1 ≠ .fire j) ∧ m'.state.watches[j]? = some w ∧ w.UpToDate m'.state := by
  have idle := hi.idle_of_keepsBindings
  refine ⟨?_, fun r => ?_⟩
  · intro endCloses n s j w balanced here attached fresh unshadowed
    exact checkWatch_of_unshadowed _ _ here unshadowed fresh balanced attached
  · obtain ⟨host, start, ds, finish, makes⟩ := idle.makes r
    have natives : ∀ f ∈ host.functions, f.KeepsBindings := makes.functions ▸ idle.natives
    obtain ⟨begun, -⟩ := makes.sound idle.natives hi.sound
    refine ⟨host, start, ds, finish, makes, ?_⟩
    rintro m during m' ⟨before, after, -, reached, journey⟩ j w here unfired fresh stays calm
    have sound := (sound_journey natives reached begun).1
    obtain ⟨idle, there, -, seen⟩ :=
      watch_journey_of_unshadowed natives journey sound here unfired fresh stays calm
    exact ⟨idle, there, seen⟩

/-- A variable of another name in a deeper frame does not concern a watch of the global frame. -/
theorem unshadowed_watches_rest_local :
    let i := Interpreter.new {} false
    let x : Variable := ⟨"x", .bigint 1, .varVar, .forever, 1, false, LifeTime.forever.window 1 0⟩
    let y : Variable := ⟨"y", .bigint 2, .varVar, .forever, 3, false, LifeTime.forever.window 3 0⟩
    let w : Watch := ⟨[], ["x"], [.bigint 1], false, 2, 0⟩
    let s : State := { frames := [{ vars := [y] }, { vars := [x] }], depth := 1, line := 3, watches := [w] }
    i.Reachable HostFunction.KeepsBindings ∧ s.Balanced ∧ w.UpToDate s ∧ w.Unshadowed s ∧
      checkWatch (i.host false) (innerAt (i.host false) 1) 0 s = .ok () s := by
  intro i x y w s
  have reachable : i.Reachable HostFunction.KeepsBindings := .new {} false
  have balanced : s.Balanced := ⟨rfl, by decide⟩
  have fresh : w.UpToDate s := by
    change differ _ _ = false
    decide
  have unshadowed : w.Unshadowed s := by
    intro name hn height above
    cases List.mem_singleton.1 hn
    match height, above with
    | 1, _ => decide
    | height + 2, _ => rfl
  refine ⟨reachable, balanced, fresh, unshadowed, ?_⟩
  exact (unshadowed_watches_rest reachable).1 false 1 s 0 w balanced rfl (Nat.zero_le _) fresh unshadowed

/-- A variable of a block fires the watch of an outer variable of its name twice, when it is declared and
when it is gone, although the outer variable stays as it is. -/
theorem shadowing_fires_watch :
    let i := ((Interpreter.new {} false).evaluate
      "var var x = 1n!\nwhen x \x7b print fired! \x7d\n\x7b var var x = 2n! \x7d" "").2
    i.state.output = "fired\nfired\n" ∧
      (i.state.bindingAt 0 "x").any fun v => v.line = 1 ∧ v.value.strictEq (.bigint 1) := by
  decide +kernel

end Gapscript
