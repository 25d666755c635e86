import Gapscript.Proofs.Session.Journeys

/-!
# Mutability over whole sessions

An assignment that the mutability of its variable does not admit fails and changes nothing. Every
request makes a journey on which properties are written through modifiable variables only, and along
every part of which mutability holds; and so it does over any number of requests.
-/

namespace Gapscript

namespace Interpreter

/-- What a host does with an interpreter short of resetting it, and the journeys that its requests
make. -/
inductive Session (Native : HostFunction → Prop) (i : Interpreter) : List (Deed × Moment) → Interpreter → Prop
  | start : Session Native i [] i
  | serve {i' : Interpreter} {ds es : List (Deed × Moment)} (before : Session Native i ds i') (r : Request)
    {host : Host} {start finish : State} (makes : i'.Makes (i'.serve r).2 host start es finish) :
    Session Native i (ds ++ es) (i'.serve r).2
  | register {i' : Interpreter} {ds : List (Deed × Moment)} (before : Session Native i ds i')
    (f : HostFunction) (hf : Native f) : Session Native i ds (i'.register f)
  | report {i' : Interpreter} {ds : List (Deed × Moment)} (before : Session Native i ds i') (e : Error)
    (source : String) : Session Native i ds (i'.report e source)
  | drain {i' : Interpreter} {ds : List (Deed × Moment)} (before : Session Native i ds i') :
    Session Native i ds i'.drain.2.2
  | write {i' : Interpreter} {ds : List (Deed × Moment)} (before : Session Native i ds i') (text : String) :
    Session Native i ds { i' with state := i'.state.write text }
  | wait {i' : Interpreter} {ds : List (Deed × Moment)} (before : Session Native i ds i') (now : Int) :
    Session Native i ds { i' with state := { i'.state with now := now } }

variable {i i' : Interpreter} {ds : List (Deed × Moment)}

theorem Session.reachable {Native : HostFunction → Prop} (h : i.Session Native ds i') (hi : i.Reachable Native) :
    i'.Reachable Native := by
  induction h with
  | start => exact hi
  | serve _ r _ ih => exact ih.serve r
  | register _ f hf ih => exact ih.register f hf
  | report _ e source ih => exact ih.report e source
  | drain _ ih => exact ih.drain
  | write _ text ih => exact ih.write text
  | wait _ now ih => exact ih.wait now

theorem Session.ne_leave {Native : HostFunction → Prop} (h : i.Session Native ds i') :
    ∀ e ∈ ds, e.1 ≠ .leave 0 := by
  induction h with
  | start => exact fun e he => nomatch he
  | serve _ r makes ih => exact List.forall_mem_append.2 ⟨ih, makes.ne_leave⟩
  | register _ f hf ih => exact ih
  | report _ e source ih => exact ih
  | drain _ ih => exact ih
  | write _ text ih => exact ih
  | wait _ now ih => exact ih

theorem Makes.respects {host : Host} {start finish : State} (makes : i.Makes i' host start ds finish)
    (natives : ∀ f ∈ i.functions, f.KeepsBindings) (balanced : i.state.Balanced) :
    Respects ds i.state i'.state := by
  have natives : ∀ f ∈ host.functions, f.KeepsBindings := makes.functions ▸ natives
  obtain ⟨line, values, rfl⟩ := makes.started
  obtain ⟨values', typed, rfl⟩ := makes.finished
  exact respects_journey natives makes.journey ⟨balanced.height, balanced.limit⟩

theorem bindingAt_register (balanced : i.state.Balanced) (f : HostFunction) (height : Nat) (name : String) :
    (i.register f).state.bindingAt height name = i.state.bindingAt height name := by
  obtain ⟨top, rest, before, -⟩ := balanced.frames_eq
  have numbered : { i.state with identities := i.state.identities + 1 }.frames = top :: rest := before
  exact bindingAt_of_funcs before (frames_modifyTop numbered _) height name

theorem Session.respects (h : i.Session HostFunction.KeepsBindings ds i')
    (hi : i.Reachable HostFunction.KeepsBindings) : Respects ds i.state i'.state := by
  induction h with
  | start => exact .refl i.state
  | serve before r makes ih =>
    have idle := (before.reachable hi).idle_of_keepsBindings
    exact ih.trans (makes.respects idle.natives idle.balanced)
  | register before f hf ih =>
    have idle := (before.reachable hi).idle_of_keepsBindings
    exact ih.of_bindingAt_eq (bindingAt_register idle.balanced f)
  | report _ e source ih => exact ih
  | drain _ ih => exact ih
  | write _ text ih => exact ih
  | wait _ now ih => exact ih

end Interpreter

theorem editable_of_journey {host : Host} {m m' : Moment} {ds : List (Deed × Moment)} (h : Journey host m ds m')
    {root : Variable} {ref : Nat} {key : String} {x : Moment} (written : (.write root ref key, x) ∈ ds) :
    root.mutability.editable = true := by
  induction h with
  | stay m => cases written
  | move first _ ih =>
    rcases List.mem_cons.1 written with same | later
    · cases same
      cases first with
      | write s fs root ref key v access editable => exact editable
    · exact ih later

/-- Mutability holds over whole runs and sessions. -/
theorem mutability_respected {i : Interpreter} (hi : i.Reachable HostFunction.KeepsBindings) :
    (∀ endCloses n a s rhs t v,
      Assignment.right (i.host endCloses) (innerAt (i.host endCloses) n) a s = .ok rhs t →
      t.lookupVariable a.name = some v → ¬ a.Admissible v.mutability →
      ∃ f, runAssignment (i.host endCloses) (innerAt (i.host endCloses) n) a s = .error (.ofFault f) t) ∧
    (∀ r, ∃ host start ds finish, i.Makes (i.serve r).2 host start ds finish ∧
      (∀ root ref key m, (.write root ref key, m) ∈ ds →
        root.mutability ≠ .varConst ∧ root.mutability ≠ .constConst) ∧
      ∀ m during m', Journey.Part host ⟨start, []⟩ ds m during m' → Respects during m.state m'.state) ∧
    ∀ ds i', i.Session HostFunction.KeepsBindings ds i' →
      (∀ e ∈ ds, e.1 ≠ .leave 0) ∧ Respects ds i.state i'.state := by
  have idle := hi.idle_of_keepsBindings
  refine ⟨?_, ?_, ?_⟩
  · intro endCloses n a s rhs t v right found refused
    exact runAssignment_of_not_admissible right found refused
  · intro r
    obtain ⟨host, start, ds, finish, makes⟩ := idle.makes r
    have natives : ∀ f ∈ host.functions, f.KeepsBindings := makes.functions ▸ idle.natives
    obtain ⟨sound, -⟩ := makes.sound idle.natives hi.sound
    refine ⟨host, start, ds, finish, makes, fun root ref key m written => ?_, ?_⟩
    · have editable := editable_of_journey makes.journey written
      constructor
      · intro same
        rw [same] at editable
        cases editable
      · intro same
        rw [same] at editable
        cases editable
    · rintro m during m' ⟨before, after, -, reached, journey⟩
      exact respects_journey natives journey (sound_journey natives reached sound).1.balanced
  · intro ds i' session
    exact ⟨session.ne_leave, session.respects hi⟩

/-- A constant keeps its value over every session in which it is not declared anew. -/
theorem mutability_respected_constant :
    ∃ i : Interpreter,
      i = ((Interpreter.new {} false).serve (.source "const const x = 1n!" "")).2 ∧
      i.Reachable HostFunction.KeepsBindings ∧
      ∀ ds i', i.Session HostFunction.KeepsBindings ds i' → (∀ e ∈ ds, e.1 ≠ .declare 0 "x") →
        (i'.state.bindingAt 0 "x").any fun v => v.value.strictEq (.bigint 1) := by
  have fresh : (Interpreter.new {} false).Reachable HostFunction.KeepsBindings := .new {} false
  have reachable := fresh.serve (.source "const const x = 1n!" "")
  refine ⟨_, rfl, reachable, fun ds i' session kept => ?_⟩
  have declared : (((Interpreter.new {} false).serve (.source "const const x = 1n!" "")).2.state.bindingAt 0
      "x").any fun v => v.mutability = .constConst ∧ v.value.strictEq (.bigint 1) := by decide +kernel
  obtain ⟨v, here, holds⟩ := (Option.any_eq_true _ _).1 declared
  rw [decide_eq_true_eq] at holds
  obtain ⟨stays, respects⟩ := (mutability_respected reachable).2.2 ds i' session
  obtain ⟨v', there, -, same | ⟨e, -, mode, -, admits⟩⟩ :=
    respects 0 "x" v here fun e he => ⟨kept e he, stays e he⟩
  · rw [there, Option.any_some, same]
    exact holds.2
  · rw [holds.1] at admits
    cases admits

end Gapscript
