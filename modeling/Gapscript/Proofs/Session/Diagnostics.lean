import Gapscript.Proofs.Run.Passage
import Gapscript.Proofs.Session.Reachable
import Gapscript.Proofs.Session.Typed

/-!
# Diagnostics change nothing else

Debugging, the log categories and what is shown around errors decide what the log shows and which
lines a reported failure is recorded with. No request looks at any of it: `voiced` gives an
interpreter other settings, another log and earlier records, and requests commute with that
(`serve_voiced`). So interpreters that are equal once they are `silent` give the same answers and
pass through the same states, records aside.
-/

namespace Gapscript

/-! ## The standard library -/

theorem Library.discreet_assert : HostFunction.Discreet assert := by
  intro call
  unfold assert
  dsimp only
  split
  · exact Run.discreet_pure _
  · exact Run.discreet_get_bind fun earlier s => Run.discreet_throw _ earlier s

theorem Library.discreet_sleep : HostFunction.Discreet sleep := by
  intro call
  unfold sleep
  dsimp only
  split
  · exact (Run.discreet_display _).bind fun text => Run.discreet_throw_bind _ _
  · refine (Run.discreet_debug _ _).bind fun _ => ?_
    refine (Run.discreet_modify fun earlier s => ?_).bind fun _ => Run.discreet_pure _
    have ticking : (s.after earlier).ticking = s.ticking := rfl
    rw [ticking]
    split
    · rfl
    · rfl

theorem Library.discreet_standard {f : HostFunction} (hf : f ∈ standard) : f.Discreet := by
  simp only [standard, List.mem_cons, List.not_mem_nil, or_false] at hf
  rcases hf with rfl | rfl | rfl | rfl | rfl
  · intro call
    refine (Run.discreet_display _).bind fun text => ?_
    exact (Run.discreet_modify fun _ _ => rfl).bind fun _ => Run.discreet_pure _
  · exact discreet_assert
  · exact fun call => Run.discreet_pure _
  · exact discreet_sleep
  · exact fun call => (Run.discreet_display _).bind fun text => Run.discreet_modifyGet fun _ _ => rfl

/-! ## Other diagnostics -/

/-- The settings with the diagnostics of other ones. -/
def Settings.diagnosedAs (settings other : Settings) : Settings :=
  { settings with
    debug := other.debug
    logCategories := other.logCategories
    showErrorContext := other.showErrorContext
    contextLines := other.contextLines }

namespace Interpreter

/-- The interpreter with the diagnostics of other settings, another log and some records before its
own. -/
def voiced (other : Settings) (log : Log) (earlier : Array Record) (i : Interpreter) : Interpreter :=
  { i with settings := i.settings.diagnosedAs other, log := log, state := i.state.after earlier }

/-- The interpreter without its records and with the diagnostics that are set when nothing is. -/
def silent (i : Interpreter) : Interpreter :=
  { i with settings := i.settings.diagnosedAs {}, log := {}, state := i.state.unrecorded }

theorem voiced_silent (i : Interpreter) : i.silent.voiced i.settings i.log i.state.records = i := by
  have state : i.silent.state.after i.state.records = i.state := i.state.after_unrecorded
  unfold voiced
  rw [state]
  rfl

theorem silent_voiced (other : Settings) (log : Log) (earlier : Array Record) (i : Interpreter) :
    (i.voiced other log earlier).silent = i.silent := rfl

section Voiced

variable {other : Settings} {log : Log} {earlier : Array Record} {i : Interpreter}

/-- An answer, with other diagnostics. -/
def answerVoiced (other : Settings) (log : Log) (earlier : Array Record)
    (answer : Outcome × Interpreter) : Outcome × Interpreter :=
  (answer.1, answer.2.voiced other log earlier)

theorem collecting_voiced {x : Run Unit} (h : x.Discreet) : (i.voiced other log earlier).collecting x =
    answerVoiced other log earlier (i.collecting x) := by
  have same := h earlier { i.state with produced := #[] }
  have start : ({ (i.voiced other log earlier).state with produced := #[] } : State) =
      State.after earlier { i.state with produced := #[] } := rfl
  unfold Run.Echoes at same
  unfold collecting
  rw [start, same]
  cases x { i.state with produced := #[] } with
  | ok a t => rfl
  | error e t => rfl

theorem evaluating_voiced (natives : ∀ f ∈ i.functions, f.Discreet) {x : Run Value} (h : x.Discreet) :
    (i.voiced other log earlier).evaluating x =
      answerVoiced other log earlier (i.evaluating x) := by
  have watched : (i.watched x).Discreet :=
    h.bind fun v => (discreet_runWatches natives).bind fun _ => Run.discreet_pure v
  have same : (i.voiced other log earlier).watched x (i.voiced other log earlier).state =
      Pact.concluded id (State.after earlier) (i.watched x i.state) := watched earlier i.state
  cases run : i.watched x i.state with
  | ok v t =>
    rw [run] at same
    rw [evaluating_of_ok run, evaluating_of_ok same]
    rfl
  | error e t =>
    rw [run] at same
    rw [evaluating_of_error run, evaluating_of_error same]
    rfl

theorem typedStatements_voiced (natives : ∀ f ∈ i.functions, f.Discreet) (input : String)
    (start : Position) : (i.voiced other log earlier).typedStatements input start =
      answerVoiced other log earlier (i.typedStatements input start) :=
  collecting_voiced ((discreet_runSource natives _).bind fun _ => Run.discreet_pure _)

theorem evaluateTyped_voiced (natives : ∀ f ∈ i.functions, f.Discreet) (input : String) :
    (i.voiced other log earlier).evaluateTyped input =
      answerVoiced other log earlier (i.evaluateTyped input) := by
  have names : ((i.voiced other log earlier).typing input).state.names = (i.typing input).state.names :=
    State.names_after earlier (i.typing input).state
  have statements : (i.voiced other log earlier).answerStatements input =
      answerVoiced other log earlier (i.answerStatements input) :=
    typedStatements_voiced (i := i.typing input) natives input i.typedStart
  rw [evaluateTyped_eq, evaluateTyped_eq, names]
  change (i.voiced other log earlier).answerTyped input
    (Reading.outcome (fullExpression (i.typing input).state.names (i.typedText input))) = _
  cases Reading.outcome (fullExpression (i.typing input).state.names (i.typedText input)) with
  | error e => exact statements
  | ok e =>
    unfold answerTyped
    dsimp only
    split
    · exact statements
    · refine evaluating_voiced (i := i.typing input) natives ((Run.discreet_debug _ _).bind fun _ => ?_)
      exact (discreet_runExpression natives e).locate _

theorem call_voiced (natives : ∀ f ∈ i.functions, f.Discreet) (name : String) (args : List Value) :
    (i.voiced other log earlier).call name args =
      answerVoiced other log earlier (i.call name args) := by
  have callee : (i.voiced other log earlier).state.lookupCallable false name =
      i.state.lookupCallable false name := State.callableIn_after earlier i.state false name _
  unfold call
  rw [callee]
  cases i.state.lookupCallable false name with
  | none => rfl
  | some fn => exact evaluating_voiced natives (discreet_runCall natives fn args)

/-- Every request gives the same answer under other diagnostics. -/
theorem serve_voiced (natives : ∀ f ∈ i.functions, f.Discreet) (r : Request) :
    (i.voiced other log earlier).serve r = answerVoiced other log earlier (i.serve r) := by
  cases r with
  | source text file =>
    exact collecting_voiced ((discreet_runSource natives _).bind fun _ => Run.discreet_pure _)
  | typed input => exact evaluateTyped_voiced natives input
  | call name args => exact call_voiced natives name args

end Voiced

/-! ## Passages of requests -/

/-- The states that a request starts from and passes through, and the interpreter it leaves behind. -/
def Takes (i j : Interpreter) (states : List State) : Prop :=
  ∃ endCloses line values path finish values' typed,
    states = { i.state with line := line, produced := values } :: path ∧
    Passage (i.host endCloses) { i.state with line := line, produced := values } path finish ∧
    j = { i with state := { finish with produced := values' }, typed := typed }

theorem takes_serve (i : Interpreter) (r : Request) : ∃ states, i.Takes (i.serve r).2 states := by
  obtain ⟨endCloses, line, values, ⟨t, values', typed, ⟨path, passage⟩, after⟩, -⟩ :=
    answers_serve i (fun b => Contract.passages (i.host b))
      (fun b => Contract.upheld_of_nested fun _ => Contract.nested_passages (i.host b) _)
      (fun _ _ _ => trivial) r
  exact ⟨_, endCloses, line, values, path, t, values', typed, rfl, passage, after⟩

theorem Takes.voiced {i j : Interpreter} {states : List State} (h : i.Takes j states)
    (natives : ∀ f ∈ i.functions, f.Discreet) (other : Settings) (log : Log) (earlier : Array Record) :
    (i.voiced other log earlier).Takes (j.voiced other log earlier) (states.map (State.after earlier)) := by
  obtain ⟨endCloses, line, values, path, finish, values', typed, rfl, passage, rfl⟩ := h
  exact ⟨endCloses, line, values, path.map (State.after earlier), finish.after earlier, values', typed,
    rfl, passage.after natives earlier, rfl⟩

/-! ## Sessions -/

/-- What a host does with an interpreter. -/
inductive Action where
  | register (f : HostFunction)
  | serve (r : Request)
  | report (e : Error) (source : String)
  | reset
  | wait (now : Int)

/-- Does something with an interpreter. -/
def act (i : Interpreter) : Action → Outcome × Interpreter
  | .register f => ({}, i.register f)
  | .serve r => i.serve r
  | .report e source => ({}, i.report e source)
  | .reset => ({}, i.reset)
  | .wait now => ({}, { i with state := { i.state with now := now } })

/-- Does some things one after the other, and collects what each of them ended with. -/
def play (i : Interpreter) : List Action → List Outcome × Interpreter
  | [] => ([], i)
  | a :: actions =>
    let (outcomes, j) := (i.act a).2.play actions
    ((i.act a).1 :: outcomes, j)

variable {i j : Interpreter}

theorem natives_of_silent (same : j.silent = i.silent) (natives : ∀ f ∈ i.functions, f.Discreet) :
    ∀ f ∈ j.functions, f.Discreet := by
  have functions : j.silent.functions = i.silent.functions := by rw [same]
  change ∀ f ∈ j.silent.functions, f.Discreet
  rw [functions]
  exact natives

theorem output_of_silent (same : j.silent = i.silent) : j.state.output = i.state.output := by
  change j.silent.state.output = i.silent.state.output
  rw [same]

theorem foldl_define_after (earlier : Array Record) (fns : List FunctionRef) (s : State) :
    fns.foldl State.define (s.after earlier) = (fns.foldl State.define s).after earlier := by
  induction fns generalizing s with
  | nil => rfl
  | cons fn fns ih => rw [List.foldl_cons, List.foldl_cons, State.define_after, ih]

theorem reset_voiced (other : Settings) (log : Log) (earlier : Array Record) (i : Interpreter) :
    (i.voiced other log earlier).reset = i.reset.voiced other log earlier := by
  have defined (fresh : State) := foldl_define_after earlier i.natives fresh
  unfold reset voiced
  dsimp only
  rw [← defined]
  rfl

theorem register_voiced (other : Settings) (log : Log) (earlier : Array Record) (i : Interpreter)
    (f : HostFunction) :
    (i.voiced other log earlier).register f = (i.register f).voiced other log earlier := by
  have defined (s : State) (fn : FunctionRef) := s.define_after earlier fn
  unfold register voiced
  dsimp only
  rw [← State.record_after, ← State.define_after]
  rfl

/-- What is done with an interpreter ends as it does without diagnostics. -/
theorem act_silent (natives : ∀ f ∈ i.functions, f.Discreet) (a : Action) :
    (i.act a).1 = (i.silent.act a).1 ∧ (i.act a).2.silent = (i.silent.act a).2.silent := by
  cases a with
  | register f =>
    have same := register_voiced i.settings i.log i.state.records i.silent f
    rw [voiced_silent] at same
    refine ⟨rfl, ?_⟩
    change (i.register f).silent = (i.silent.register f).silent
    rw [same, silent_voiced]
  | serve r =>
    have same := @serve_voiced i.settings i.log i.state.records i.silent natives r
    rw [voiced_silent] at same
    change (i.serve r).1 = (i.silent.serve r).1 ∧ (i.serve r).2.silent = (i.silent.serve r).2.silent
    rw [same]
    exact ⟨rfl, rfl⟩
  | report e source => exact ⟨rfl, rfl⟩
  | reset =>
    have same := reset_voiced i.settings i.log i.state.records i.silent
    rw [voiced_silent] at same
    refine ⟨rfl, ?_⟩
    change i.reset.silent = i.silent.reset.silent
    rw [same, silent_voiced]
  | wait now => exact ⟨rfl, rfl⟩

theorem act_alike (same : j.silent = i.silent) (natives : ∀ f ∈ i.functions, f.Discreet) (a : Action) :
    (j.act a).1 = (i.act a).1 ∧ (j.act a).2.silent = (i.act a).2.silent := by
  obtain ⟨outcome, after⟩ := act_silent natives a
  obtain ⟨outcome', after'⟩ := act_silent (natives_of_silent same natives) a
  rw [same] at outcome' after'
  exact ⟨outcome'.trans outcome.symm, after'.trans after.symm⟩

/-- Interpreters that are equal but for diagnostics take a request through the same states. -/
theorem takes_alike (same : j.silent = i.silent) (natives : ∀ f ∈ i.functions, f.Discreet) (r : Request) :
    ∃ states states', i.Takes (i.serve r).2 states ∧ j.Takes (j.serve r).2 states' ∧
      states'.map State.unrecorded = states.map State.unrecorded := by
  obtain ⟨states, takes⟩ := i.silent.takes_serve r
  have heard (k : Interpreter) (same : k.silent = i.silent) :
      k.Takes (k.serve r).2 (states.map (State.after k.state.records)) := by
    have voiced := takes.voiced natives k.settings k.log k.state.records
    have served := @serve_voiced k.settings k.log k.state.records i.silent natives r
    rw [← same, voiced_silent] at voiced served
    rw [congrArg Prod.snd served]
    exact voiced
  refine ⟨_, _, heard i rfl, heard j same, ?_⟩
  rw [List.map_map, List.map_map]
  rfl

/-- An action leaves discreet functions only, if it registers no other. -/
theorem natives_act (natives : ∀ f ∈ i.functions, f.Discreet) {a : Action}
    (registers : ∀ f, a = .register f → f.Discreet) : ∀ f ∈ (i.act a).2.functions, f.Discreet := by
  cases a with
  | register f =>
    intro g hg
    rcases Array.mem_push.1 hg with known | same
    · exact natives g known
    · exact same ▸ registers f rfl
  | serve r =>
    obtain ⟨states, endCloses, line, values, path, finish, values', typed, -, -, after⟩ := i.takes_serve r
    change ∀ f ∈ (i.serve r).2.functions, f.Discreet
    rw [after]
    exact natives
  | report e source => exact natives
  | reset => exact natives
  | wait now => exact natives

theorem play_alike (same : j.silent = i.silent) (natives : ∀ f ∈ i.functions, f.Discreet)
    {actions : List Action} (registers : ∀ f, .register f ∈ actions → f.Discreet) :
    (j.play actions).1 = (i.play actions).1 ∧ (j.play actions).2.silent = (i.play actions).2.silent ∧
      ∀ f ∈ (i.play actions).2.functions, f.Discreet := by
  induction actions generalizing i j with
  | nil => exact ⟨rfl, same, natives⟩
  | cons a actions ih =>
    obtain ⟨outcome, after⟩ := act_alike same natives a
    have first := natives_act natives fun f (h : a = .register f) => registers f (h ▸ List.mem_cons_self)
    obtain ⟨outcomes, after, last⟩ := ih after first fun f h => registers f (List.mem_cons_of_mem a h)
    refine ⟨?_, after, last⟩
    change (j.act a).1 :: ((j.act a).2.play actions).1 = (i.act a).1 :: ((i.act a).2.play actions).1
    rw [outcome, outcomes]

theorem natives_new (settings : Settings) (ticking : Bool) :
    ∀ f ∈ (new settings ticking).functions, f.Discreet := by
  refine List.foldlRecOn (motive := fun i : Interpreter => ∀ f ∈ i.functions, f.Discreet)
    Library.standard Interpreter.register ?_ fun i hi f hf => ?_
  · exact fun f hf => absurd hf (Array.not_mem_empty f)
  · exact natives_act (a := .register f) hi fun g same => by cases same; exact Library.discreet_standard hf

theorem foldl_register_voiced (other : Settings) (log : Log) (earlier : Array Record)
    (fs : List HostFunction) (i : Interpreter) :
    fs.foldl register (i.voiced other log earlier) = (fs.foldl register i).voiced other log earlier := by
  induction fs generalizing i with
  | nil => rfl
  | cons f fs ih => rw [List.foldl_cons, List.foldl_cons, register_voiced, ih]

/-- A new interpreter is one without diagnostics, voiced. -/
theorem new_eq_voiced (settings other : Settings) (ticking : Bool) :
    ∃ log records, new (settings.diagnosedAs other) ticking =
      Interpreter.voiced other log records (Library.standard.foldl register
        { settings := settings, log := {}
          state := { maxDepth := settings.maxScopeDepth, ticking := ticking } }) := by
  refine ⟨(logOf (settings.diagnosedAs other)).1, (logOf (settings.diagnosedAs other)).2, ?_⟩
  rw [← foldl_register_voiced]
  have records : (logOf (settings.diagnosedAs other)).2 ++ #[] =
      (logOf (settings.diagnosedAs other)).2 := Array.append_empty
  unfold new voiced State.after
  dsimp only
  rw [records]
  rfl

theorem silent_new (settings other : Settings) (ticking : Bool) :
    (new (settings.diagnosedAs other) ticking).silent = (new settings ticking).silent := by
  obtain ⟨log, records, voiced⟩ := new_eq_voiced settings other ticking
  obtain ⟨log', records', voiced'⟩ := new_eq_voiced settings settings ticking
  change new settings ticking = _ at voiced'
  rw [voiced, voiced', silent_voiced, silent_voiced]

/-- A session from a new interpreter: what each action ended with, and what it leaves behind. -/
def session (settings : Settings) (ticking : Bool) (actions : List Action) : List Outcome × Interpreter :=
  (new settings ticking).play actions

end Interpreter

open Interpreter

/-- Under two configurations that differ in diagnostics only, whatever a host does, every answer is
the same, and so are the states between and during requests, records aside. -/
theorem diagnostics_passive (settings other : Settings) (ticking : Bool) (actions : List Action)
    (registers : ∀ f, .register f ∈ actions → f.Discreet) :
    (session (settings.diagnosedAs other) ticking actions).1 = (session settings ticking actions).1 ∧
    (∀ front, front <+: actions →
      (session (settings.diagnosedAs other) ticking front).2.silent =
        (session settings ticking front).2.silent) ∧
    ∀ front r, front ++ [.serve r] <+: actions →
      ∀ i, i = (session settings ticking front).2 →
      ∀ j, j = (session (settings.diagnosedAs other) ticking front).2 →
      ∃ states states', i.Takes (i.serve r).2 states ∧ j.Takes (j.serve r).2 states' ∧
        states'.map State.unrecorded = states.map State.unrecorded := by
  have same := silent_new settings other ticking
  have natives := natives_new settings ticking
  have played {front : List Action} (before : front <+: actions) :=
    play_alike same natives fun f h => registers f (before.subset h)
  refine ⟨(play_alike same natives registers).1, fun front before => (played before).2.1, ?_⟩
  rintro front r before i rfl j rfl
  obtain ⟨-, alike, discreet⟩ := played ((List.prefix_append _ _).trans before)
  exact takes_alike alike discreet r

/-- A session with a watch, a failure that is reported and a fresh start, under two configurations
whose records differ. -/
theorem diagnostics_passive_watch :
    ∃ (other : Settings) (actions : List Action),
      (session (({} : Settings).diagnosedAs other) false actions).1 = (session {} false actions).1 ∧
      (session {} false actions).2.state.output = "23" ∧
      (session (({} : Settings).diagnosedAs other) false actions).2.state.output = "23" ∧
      (session (({} : Settings).diagnosedAs other) false actions).2.state.records.size ≠
        (session {} false actions).2.state.records.size := by
  let other : Settings := { debug := true, logCategories := ["some"] }
  let actions : List Action :=
    [.register Library.emit,
      .serve (.source "var var x = 1n?\nwhen x \x7b emit x! \x7d\nx = 2n!\nnull + x!" ""),
      .report .exhausted "x", .reset, .serve (.typed "emit 3n")]
  have registers : ∀ f, .register f ∈ actions → f.Discreet := by
    intro f among
    simp only [actions, List.mem_cons, List.not_mem_nil, or_false, reduceCtorEq,
      Action.register.injEq] at among
    subst among
    intro call
    exact (Run.discreet_display _).bind fun text =>
      (Run.discreet_modify fun _ _ => rfl).bind fun _ => Run.discreet_pure _
  have output : (session {} false actions).2.state.output = "23" := by decide +kernel
  have more : (session (({} : Settings).diagnosedAs other) false actions).2.state.records.size ≠
      (session {} false actions).2.state.records.size := by decide +kernel
  obtain ⟨outcomes, after, -⟩ := diagnostics_passive {} other false actions registers
  have same := output_of_silent (after actions (List.prefix_refl _))
  exact ⟨other, actions, outcomes, output, same.trans output, more⟩

end Gapscript
