import Gapscript.Proofs.Run.Travel
import Gapscript.Proofs.Run.Watches
import Gapscript.Proofs.Session.Reachable

/-!
# Requests as journeys

Every request to an interpreter makes a journey, on which no watch is being fired at the start or at
the end, and which never leaves the global frame. So what moves preserve holds in every reachable
interpreter, and at every moment of every request.
-/

namespace Gapscript

open Run

/-! ## Native functions -/

theorem State.SameProgram.sameBindings {s t : State} (h : s.SameProgram t) : s.SameBindings t := by
  obtain ⟨_, _, _, _, rfl⟩ := h
  exact ⟨rfl, rfl, rfl, rfl⟩

theorem keepsBindings_standard {f : HostFunction} (hf : f ∈ Library.standard) : f.KeepsBindings :=
  Library.obeys_standard hf (fun same => same.sameBindings) fun _ => trivial

/-! ## Requests -/

namespace Interpreter

/-- A journey from one interpreter to another. It starts from the state of the first, apart from the
line and the values produced, and leads to the state of the second, apart from the values produced. -/
structure Makes (i i' : Interpreter) (host : Host) (start : State) (ds : List (Deed × Moment))
    (finish : State) : Prop where
  functions : host.functions = i.functions
  started : ∃ line values, start = { i.state with line := line, produced := values }
  journey : Journey host ⟨start, []⟩ ds ⟨finish, []⟩
  stack : start.SameStack finish
  above : ∀ e ∈ ds, e.1.Above 0
  finished : ∃ values typed, i' = { i with state := { finish with produced := values }, typed := typed }

section Serve

variable {i : Interpreter} (natives : ∀ f ∈ i.functions, f.KeepsBindings) (balanced : i.state.Balanced)
  (global : i.state.depth = 0)

include natives

theorem leads_within (endCloses : Bool) (s : State) :
    (innerAt (i.host endCloses) s.room).Leads (i.host endCloses) := leads_innerAt natives s.room

theorem leads_runSource (fs : List Firing) (endCloses : Bool) (c : Cursor) (s : State) :
    (runSource (i.host endCloses) c).Leads (i.host endCloses) fs s := by
  exact .after (fun _ => .refl s) (leads_runStatements (leads_within natives endCloses s) true c) rfl

theorem leads_watched {x : Run Value} {s : State} (h : x.Leads (i.host false) [] s) :
    (i.watched x).Leads (i.host false) [] s := by
  refine h.bind fun v t _ => ?_
  have looks : (runWatches (i.host false)).Leads (i.host false) [] t :=
    .after (fun _ => .refl t) (leads_checkWatches (leads_within natives false t)) rfl
  exact looks.bind fun _ u _ => leads_pure v

omit natives

include balanced global

theorem makes_of_leads {i' : Interpreter} {α : Type} {x : Run α} {endCloses : Bool} {line : Int}
    {values : Array Value}
    (leads : x.Leads (i.host endCloses) [] { i.state with line := line, produced := values })
    (after : ∃ values' typed', i' = { i with
      state := { x.reached { i.state with line := line, produced := values } with produced := values' }
      typed := typed' }) :
    ∃ host start ds finish, i.Makes i' host start ds finish := by
  have under : State.Under [] { i.state with line := line, produced := values } :=
    ⟨⟨balanced.height, balanced.limit⟩, fun f hf => nomatch hf⟩
  obtain ⟨stack, ds, journey, above⟩ := leads under
  have global : ({ i.state with line := line, produced := values } : State).depth = 0 := global
  rw [global] at above
  exact ⟨_, _, ds, _, rfl, ⟨line, values, rfl⟩, journey, stack, above, after⟩

include natives

theorem makes_typed (input : String) :
    ∃ host start ds finish, i.Makes (i.evaluateTyped input).2 host start ds finish := by
  let start : Position := { line := i.typed.length + 1, file := typedSource }
  let i' : Interpreter := { i with
    state := { i.state with line := start.line }
    typed := i.typed ++ input.splitOn "\n" }
  have statements : ∃ host begin ds finish,
      i.Makes (i'.typedStatements input start).2 host begin ds finish := by
    have leads := leads_runSource natives [] true ⟨input.toList, start⟩
      { i.state with line := start.line, produced := #[] }
    refine makes_of_leads balanced global (leads.bind fun _ t _ => leads_pure ()) ?_
    exact ⟨#[], _, (i'.collecting_eq _).2⟩
  unfold evaluateTyped
  dsimp only
  split
  · next e _ =>
    split
    · exact statements
    · have leads : ((do
          Run.debug .repl "evaluating input as an expression"
          Run.locate (some start) (runExpression (i.host false) e)) : Run Value).Leads (i.host false) []
            { i.state with line := start.line, produced := i.state.produced } := by
        refine (leads_debug _ _).bind fun _ t _ => Leads.locate (some start) ?_
        exact .after (fun _ => .refl t) (leads_eval (leads_within natives false t) e t) rfl
      refine makes_of_leads balanced global (leads_watched natives leads) ?_
      exact ⟨_, _, (i'.evaluating_eq _).2⟩
  · exact statements

/-- Every request makes a journey. -/
theorem makes_serve (r : Request) : ∃ host start ds finish, i.Makes (i.serve r).2 host start ds finish := by
  cases r with
  | source text file =>
    have leads := leads_runSource natives [] false (Cursor.start text file)
      { i.state with line := i.state.line, produced := #[] }
    refine makes_of_leads balanced global (leads.bind fun _ t _ => leads_pure ()) ?_
    exact ⟨#[], _, (i.collecting_eq _).2⟩
  | typed input => exact makes_typed natives balanced global input
  | call name args =>
    change ∃ host start ds finish, i.Makes (i.call name args).2 host start ds finish
    unfold call
    cases i.state.lookupCallable false name with
    | none =>
      exact ⟨i.host false, i.state, [], i.state, rfl, ⟨_, _, rfl⟩, .stay _, .refl _, fun _ he => (nomatch he),
        _, _, rfl⟩
    | some fn =>
      have leads : (runCall (i.host false) fn args).Leads (i.host false) []
          { i.state with line := i.state.line, produced := i.state.produced } :=
        .after (fun _ => .refl _) (leads_callFunction (leads_within natives false i.state) fn args none) rfl
      refine makes_of_leads balanced global (leads_watched natives leads) ?_
      exact ⟨_, _, (i.evaluating_eq _).2⟩

end Serve

/-! ## Reachable interpreters -/

variable {i : Interpreter}

/-- No request leaves the global frame. -/
theorem Makes.ne_leave {i' : Interpreter} {host : Host} {start finish : State}
    {ds : List (Deed × Moment)} (makes : i.Makes i' host start ds finish) :
    ∀ e ∈ ds, e.1 ≠ .leave 0 := by
  intro e he left
  have above := makes.above e he
  rw [left] at above
  exact Nat.lt_irrefl 0 above

theorem Idle.makes (h : i.Idle HostFunction.KeepsBindings) (r : Request) :
    ∃ host start ds finish, i.Makes (i.serve r).2 host start ds finish :=
  makes_serve h.natives h.balanced h.depth r

theorem Idle.of_makes {Native : HostFunction → Prop} (h : i.Idle Native) {i' : Interpreter} {host : Host}
    {start finish : State} {ds : List (Deed × Moment)} (makes : i.Makes i' host start ds finish) :
    i'.Idle Native := by
  obtain ⟨line, values, rfl⟩ := makes.started
  obtain ⟨values', typed, rfl⟩ := makes.finished
  exact h.of_sameStack rfl rfl ⟨makes.stack.height, makes.stack.depth, makes.stack.limit⟩

theorem Reachable.idle_of_keepsBindings (h : i.Reachable HostFunction.KeepsBindings) :
    i.Idle HostFunction.KeepsBindings := by
  refine h.idle_of_serve (fun r hi => ?_) fun f hf => keepsBindings_standard hf
  obtain ⟨host, start, ds, finish, makes⟩ := hi.makes r
  exact hi.of_makes makes

theorem sound_of_no_watches {s : State} (balanced : s.Balanced) (none : s.watches = []) :
    Moment.Sound ⟨s, []⟩ := by
  refine ⟨balanced, ⟨?_, ?_, ?_⟩, ?_, List.nodup_nil, fun f hf => nomatch hf⟩
  · simp [none]
  · simp [none]
  · simp [none]
  · simp [none]

theorem watches_new (settings : Settings) (ticking : Bool) : (new settings ticking).state.watches = [] := by
  refine List.foldlRecOn (motive := fun i : Interpreter => i.state.watches = []) Library.standard
    Interpreter.register rfl fun i hi f _ => ?_
  exact (watches_modifyTop _ _).trans hi

theorem watches_reset (i : Interpreter) : i.reset.state.watches = [] := by
  refine List.foldlRecOn (motive := fun s : State => s.watches = []) i.natives State.define rfl
    fun s hs fn _ => ?_
  exact (watches_modifyTop s _).trans hs

/-- Every moment of a request is sound if the interpreter was. -/
theorem Makes.sound {i' : Interpreter} {host : Host} {start finish : State} {ds : List (Deed × Moment)}
    (makes : i.Makes i' host start ds finish) (natives : ∀ f ∈ i.functions, f.KeepsBindings)
    (hi : Moment.Sound ⟨i.state, []⟩) :
    Moment.Sound ⟨start, []⟩ ∧ Moment.Sound ⟨finish, []⟩ ∧ ∀ e ∈ ds, e.2.Sound := by
  have natives : ∀ f ∈ host.functions, f.KeepsBindings := makes.functions ▸ natives
  obtain ⟨line, values, rfl⟩ := makes.started
  have start : Moment.Sound ⟨{ i.state with line := line, produced := values }, []⟩ :=
    hi.of_same ⟨hi.balanced.height, hi.balanced.limit⟩ rfl rfl (Nat.le_refl _)
  exact ⟨start, sound_journey natives makes.journey start⟩

/-- Between requests the watches are in order, and none is marked. -/
theorem Reachable.sound (h : i.Reachable HostFunction.KeepsBindings) : Moment.Sound ⟨i.state, []⟩ := by
  have kept {s t : State} (hs : Moment.Sound ⟨s, []⟩) (same : s.SameStack t) (watches : t.watches = s.watches) :
      Moment.Sound ⟨t, []⟩ :=
    hs.of_same (same.balanced hs.balanced) watches rfl (Nat.le_of_eq same.depth.symm)
  induction h with
  | new settings ticking =>
    have idle := (Reachable.new settings ticking).idle_of_keepsBindings
    exact sound_of_no_watches idle.balanced (watches_new settings ticking)
  | @register i hi f hf ih =>
    have numbered := kept ih (t := { i.state with identities := i.state.identities + 1 }) ⟨rfl, rfl, rfl⟩ rfl
    refine kept numbered ?_ (watches_modifyTop _ _)
    exact (State.sameStack_define numbered.balanced _).trans (State.sameStack_record _ _)
  | reset hi settings =>
    exact sound_of_no_watches (hi.reset settings).idle_of_keepsBindings.balanced (watches_reset _)
  | serve hi r ih =>
    obtain ⟨host, start, ds, finish, makes⟩ := hi.idle_of_keepsBindings.makes r
    obtain ⟨-, sound, -⟩ := makes.sound hi.idle_of_keepsBindings.natives ih
    obtain ⟨values, typed, after⟩ := makes.finished
    rw [after]
    exact kept sound ⟨rfl, rfl, rfl⟩ rfl
  | report _ e source ih => exact kept ih (State.sameStack_record _ _) rfl
  | drain _ ih => exact kept ih ⟨rfl, rfl, rfl⟩ rfl
  | write _ text ih => exact kept ih ⟨rfl, rfl, rfl⟩ rfl
  | wait _ now ih => exact kept ih ⟨rfl, rfl, rfl⟩ rfl

end Interpreter

end Gapscript
