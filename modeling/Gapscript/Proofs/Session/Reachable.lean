import Gapscript.Proofs.Run.Frames
import Gapscript.Proofs.Session.Library
import Gapscript.Session.Interpreter

/-!
# Requests to an interpreter

A host evaluates a text, evaluates typed input or calls a function. Each request is one run from the
interpreter's state, so it is covered by every contract that such runs uphold. An interpreter is
reachable when requests and the other operations of a host lead to it from a new one; its functions
are then those of the standard library and those that the host registered.
-/

namespace Gapscript

/-! ## Native functions -/

theorem HostFunction.Obeys.mono {Pre Pre' : State → Prop} {Change Change' : State → State → Prop}
    {Raised Raised' : Error → Prop} {f : HostFunction} (h : f.Obeys Pre Change Raised)
    (pre : ∀ {s}, Pre' s → Pre s) (change : ∀ {s t}, Change s t → Change' s t)
    (raised : ∀ {e}, Raised e → Raised' e) : f.Obeys Pre' Change' Raised' := by
  intro call s hs
  obtain ⟨moved, failed⟩ := h call s (pre hs)
  exact ⟨change moved, fun e he => raised (failed e he)⟩

namespace Library

/-- What holds of any two states with the same program, and of all complaints, holds of what functions of the
standard library change and fail with. -/
theorem obeys_standard {f : HostFunction} (hf : f ∈ standard) {Pre : State → Prop}
    {Change : State → State → Prop} {Raised : Error → Prop} (change : ∀ {s t}, s.SameProgram t → Change s t)
    (raised : ∀ {e}, Complaint e → Raised e) : f.Obeys Pre Change Raised := by
  intro call s _
  unfold Run.reached Run.failure?
  cases answers_standard hf call s with
  | value run _ same =>
    rw [run]
    exact ⟨change same, fun _ he => nomatch he⟩
  | complaint run complaint _ =>
    rw [run]
    refine ⟨change (.refl s), fun _ he => ?_⟩
    cases he
    exact raised complaint

end Library

theorem State.SameProgram.sameStack {s t : State} (h : s.SameProgram t) : s.SameStack t := by
  obtain ⟨_, _, _, _, rfl⟩ := h
  exact ⟨rfl, rfl, rfl⟩

/-! ## Requests -/

/-- What a host asks of an interpreter. -/
inductive Request where
  | source (text file : String)
  | typed (input : String)
  | call (name : String) (args : List Value)

/-- The runs that requests consist of uphold a contract. -/
structure Contract.Upheld {host : Host} (k : Contract host) : Prop where
  source : ∀ c {s}, k.Pre s → k.Agree s (runSource host c) (runSource host c)
  expression : ∀ e {s}, k.Pre s → k.Agree s (runExpression host e) (runExpression host e)
  call : ∀ fn args {s}, k.Pre s → k.Agree s (runCall host fn args) (runCall host fn args)
  watches : ∀ {s}, k.Pre s → k.Agree s (runWatches host) (runWatches host)

/-- A request enters frames with the room that its state leaves. -/
theorem Contract.upheld_of_nested {host : Host} {k : Contract host}
    (nested : ∀ {s}, k.Pre s → k.Nested (innerAt host s.room) (innerAt host s.room)) : k.Upheld where
  source c _ hs := (agree_runStatements (nested hs) hs true c).congr rfl rfl
  expression e _ hs := (agree_eval (nested hs) e hs).congr rfl rfl
  call fn args _ hs := (agree_callFunction (nested hs) hs fn args none).congr rfl rfl
  watches hs := (agree_checkWatches (nested hs) hs).congr rfl rfl

namespace Interpreter

/-- Answers a request. -/
def serve (i : Interpreter) : Request → Outcome × Interpreter
  | .source text file => i.evaluate text file
  | .typed input => i.evaluateTyped input
  | .call name args => i.call name args

theorem collecting_eq (i : Interpreter) (x : Run Unit) :
    (i.collecting x).1.error = x.failure? { i.state with produced := #[] } ∧
      (i.collecting x).2 =
        { i with state := { x.reached { i.state with produced := #[] } with produced := #[] } } := by
  unfold collecting Run.failure? Run.reached
  cases x { i.state with produced := #[] } with
  | ok a t => exact ⟨rfl, rfl⟩
  | error e t => exact ⟨rfl, rfl⟩

theorem collecting_of_ok {i : Interpreter} {x : Run Unit} {t : State}
    (h : x { i.state with produced := #[] } = .ok () t) :
    i.collecting x = ({ values := t.produced.toList }, { i with state := { t with produced := #[] } }) := by
  rw [collecting, h]

theorem collecting_of_error {i : Interpreter} {x : Run Unit} {e : Error} {t : State}
    (h : x { i.state with produced := #[] } = .error e t) :
    i.collecting x =
      ({ values := t.produced.toList, error := some e }, { i with state := { t with produced := #[] } }) := by
  rw [collecting, h]

/-- A run followed by a look at the watches. -/
def watched (i : Interpreter) (x : Run Value) : Run Value := do
  let v ← x
  runWatches (i.host false)
  pure v

theorem evaluating_eq (i : Interpreter) (x : Run Value) :
    (i.evaluating x).1.error = (i.watched x).failure? i.state ∧
      (i.evaluating x).2 = { i with state := (i.watched x).reached i.state } := by
  unfold evaluating Run.failure? Run.reached watched
  dsimp only
  cases (do let v ← x; runWatches (i.host false); pure v : Run Value) i.state with
  | ok v t => exact ⟨rfl, rfl⟩
  | error e t => exact ⟨rfl, rfl⟩

theorem evaluating_of_ok {i : Interpreter} {x : Run Value} {v : Value} {t : State}
    (h : i.watched x i.state = .ok v t) : i.evaluating x = ({ values := [v] }, { i with state := t }) := by
  unfold watched at h
  rw [evaluating, h]

theorem evaluating_of_error {i : Interpreter} {x : Run Value} {e : Error} {t : State}
    (h : i.watched x i.state = .error e t) : i.evaluating x = ({ error := some e }, { i with state := t }) := by
  unfold watched at h
  rw [evaluating, h]

/-- The answer to a request whose run started from the state `s` and kept a contract: what has
changed in the interpreter is the state and the list of typed lines. -/
def Answers {host : Host} (k : Contract host) (i : Interpreter) (s : State)
    (answer : Outcome × Interpreter) : Prop :=
  (∃ t values typed, k.Change s t ∧
    answer.2 = { i with state := { t with produced := values }, typed := typed }) ∧
  ∀ e, answer.1.error = some e → k.Raised e

section Answers

variable {i : Interpreter}

theorem answers_collecting {host : Host} {k : Contract host} {x : Run Unit}
    (h : k.Agree { i.state with produced := #[] } x x) :
    i.Answers k { i.state with produced := #[] } (i.collecting x) := by
  obtain ⟨failed, after⟩ := i.collecting_eq x
  refine ⟨⟨_, _, _, h.2.change, after⟩, fun e he => h.2.raised ?_⟩
  rw [← failed, he]

theorem answers_evaluating {k : Contract (i.host false)} (upheld : k.Upheld) (hs : k.Pre i.state)
    {x : Run Value} (h : k.Agree i.state x x) : i.Answers k i.state (i.evaluating x) := by
  have allowed : k.Agree i.state (i.watched x) (i.watched x) := by
    refine h.bind hs fun v t ht => ?_
    exact (upheld.watches ht).bind ht fun _ u hu => Contract.agree_pure hu v
  obtain ⟨failed, after⟩ := i.evaluating_eq x
  refine ⟨⟨_, _, _, allowed.2.change, after⟩, fun e he => allowed.2.raised ?_⟩
  rw [← failed, he]

theorem Answers.of_typing {host : Host} {k : Contract host} {s s' : State} {lines : List String}
    {answer : Outcome × Interpreter} (h : Answers k { i with state := s', typed := lines } s answer) :
    i.Answers k s answer := by
  obtain ⟨⟨t, values, typed, moved, same⟩, failed⟩ := h
  exact ⟨⟨t, values, typed, moved, same⟩, failed⟩

end Answers

section Serve

variable (i : Interpreter) (k : ∀ endCloses, Contract (i.host endCloses))
variable (upheld : ∀ endCloses, (k endCloses).Upheld)
variable (ready : ∀ endCloses line values,
  (k endCloses).Pre { i.state with line := line, produced := values })

include upheld ready

theorem answers_typed (input : String) :
    ∃ endCloses line values,
      i.Answers (k endCloses) { i.state with line := line, produced := values } (i.evaluateTyped input) := by
  let start : Position := { line := i.typed.length + 1, file := typedSource }
  let i' : Interpreter := { i with
    state := { i.state with line := start.line }
    typed := i.typed ++ input.splitOn "\n" }
  have statements : i.Answers (k true) { i.state with line := start.line, produced := #[] }
      (i'.typedStatements input start) := by
    have hs := ready true start.line #[]
    have run := ((upheld true).source ⟨input.toList, start⟩ hs).bind hs
      fun _ t ht => Contract.agree_pure ht ()
    exact (answers_collecting (i := i') run).of_typing
  unfold evaluateTyped
  dsimp only
  split
  · next e _ =>
    split
    · exact ⟨true, _, _, statements⟩
    · have hs := ready false start.line i.state.produced
      have run := (Contract.agree_debug hs .repl "evaluating input as an expression").bind hs
        fun _ t ht => ((upheld false).expression e ht).locate (some start)
      have answered := answers_evaluating (i := i') (upheld false) hs run
      exact ⟨false, start.line, i.state.produced, answered.of_typing⟩
  · exact ⟨true, _, _, statements⟩

/-- Every request is a run under a contract of one of the two hosts. -/
theorem answers_serve (r : Request) :
    ∃ endCloses line values,
      i.Answers (k endCloses) { i.state with line := line, produced := values } (i.serve r) := by
  cases r with
  | source text file =>
    have hs := ready false i.state.line #[]
    have run := ((upheld false).source (Cursor.start text file) hs).bind hs
      fun _ t ht => Contract.agree_pure ht ()
    exact ⟨false, i.state.line, #[], answers_collecting run⟩
  | typed input => exact answers_typed i k upheld ready input
  | call name args =>
    have hs := ready false i.state.line i.state.produced
    refine ⟨false, i.state.line, i.state.produced, ?_⟩
    change i.Answers (k false) i.state (i.call name args)
    unfold call
    cases i.state.lookupCallable false name with
    | none =>
      refine ⟨⟨i.state, i.state.produced, i.typed, (k false).refl hs, rfl⟩, fun e he => ?_⟩
      cases he
      exact (k false).ordinary (.missing name none)
    | some fn => exact answers_evaluating (upheld false) hs ((upheld false).call fn args hs)

end Serve

/-! ## Reachable interpreters -/

/-- An interpreter that a host comes to have from a new one, if what it registers is `Native`. -/
inductive Reachable (Native : HostFunction → Prop) : Interpreter → Prop
  | new (settings : Settings) (ticking : Bool) : Reachable Native (new settings ticking)
  | register {i : Interpreter} (hi : Reachable Native i) (f : HostFunction) (hf : Native f) :
    Reachable Native (i.register f)
  | reset {i : Interpreter} (hi : Reachable Native i) (settings : Settings) :
    Reachable Native { i with settings := settings }.reset
  | serve {i : Interpreter} (hi : Reachable Native i) (r : Request) : Reachable Native (i.serve r).2
  | report {i : Interpreter} (hi : Reachable Native i) (e : Error) (source : String) :
    Reachable Native (i.report e source)
  | drain {i : Interpreter} (hi : Reachable Native i) : Reachable Native i.drain.2.2
  | write {i : Interpreter} (hi : Reachable Native i) (text : String) :
    Reachable Native { i with state := i.state.write text }
  | wait {i : Interpreter} (hi : Reachable Native i) (now : Int) :
    Reachable Native { i with state := { i.state with now := now } }

/-- Between requests the stack consists of the global frame, and the limit is the one of the
settings. -/
structure Idle (Native : HostFunction → Prop) (i : Interpreter) : Prop where
  natives : ∀ f ∈ i.functions, Native f
  height : i.state.frames.length = 1
  depth : i.state.depth = 0
  limit : i.state.maxDepth = i.settings.maxScopeDepth

section Idle

variable {Native : HostFunction → Prop} {i : Interpreter}

theorem Idle.balanced (h : i.Idle Native) : i.state.Balanced := by
  constructor
  · rw [h.height, h.depth]
  · intro limited
    rw [h.depth]
    omega

/-- Whatever keeps the stack, the settings and the functions keeps an interpreter idle. -/
theorem Idle.of_sameStack (h : i.Idle Native) {i' : Interpreter} (functions : i'.functions = i.functions)
    (settings : i'.settings = i.settings) (same : i.state.SameStack i'.state) : i'.Idle Native where
  natives := functions ▸ h.natives
  height := same.height.trans h.height
  depth := same.depth.trans h.depth
  limit := by rw [same.limit, h.limit, settings]

theorem Idle.register (h : i.Idle Native) {f : HostFunction} (hf : Native f) :
    (i.register f).Idle Native := by
  have numbered : i.state.SameStack { i.state with identities := i.state.identities + 1 } := ⟨rfl, rfl, rfl⟩
  have same : i.state.SameStack (i.register f).state :=
    numbered.trans
      ((State.sameStack_define (numbered.balanced h.balanced) _).trans (State.sameStack_record _ _))
  refine ⟨?_, same.height.trans h.height, same.depth.trans h.depth, same.limit.trans h.limit⟩
  intro g hg
  rcases Array.mem_push.1 hg with known | rfl
  · exact h.natives g known
  · exact hf

theorem idle_new (standard : ∀ f ∈ Library.standard, Native f) (settings : Settings) (ticking : Bool) :
    (new settings ticking).Idle Native := by
  refine List.foldlRecOn Library.standard Interpreter.register ?_ fun i hi f hf => hi.register (standard f hf)
  exact ⟨fun f hf => absurd hf (Array.not_mem_empty f), rfl, rfl, rfl⟩

/-- Forgetting all bindings leaves the global frame, with the limit of the settings then in force. -/
theorem Idle.reset (h : i.Idle Native) (settings : Settings) :
    { i with settings := settings }.reset.Idle Native := by
  have defined (fresh : State) (hs : fresh.Balanced) :
      fresh.SameStack (i.natives.foldl State.define fresh) := by
    refine List.foldlRecOn i.natives State.define (.refl fresh) fun t same fn _ => ?_
    exact same.trans (State.sameStack_define (same.balanced hs) fn)
  have fresh : State.Balanced
      { maxDepth := settings.maxScopeDepth
        now := i.state.now
        ticking := i.state.ticking
        heap := i.state.heap
        identities := i.state.identities
        hoistedFunctions := i.state.hoistedFunctions
        output := i.state.output
        records := i.state.records } := ⟨rfl, fun limited => Int.le_of_lt limited⟩
  have same := defined _ fresh
  exact ⟨h.natives, same.height, same.depth, same.limit⟩

theorem Idle.answers (h : i.Idle Native) (keeps : ∀ f, Native f → f.KeepsFrames) (r : Request) :
    ∃ endCloses, ∃ natives : ∀ f ∈ (i.host endCloses).functions, f.KeepsFrames, ∃ line values,
      i.Answers (Contract.frames natives) { i.state with line := line, produced := values } (i.serve r) := by
  have natives (endCloses : Bool) : ∀ f ∈ (i.host endCloses).functions, f.KeepsFrames :=
    fun f hf => keeps f (h.natives f hf)
  obtain ⟨endCloses, line, values, answered⟩ := answers_serve i (fun b => Contract.frames (natives b))
    (fun b => Contract.upheld_of_nested fun _ => Contract.nested_frames (natives b) _)
    (fun _ _ _ => ⟨h.balanced.height, h.balanced.limit⟩) r
  exact ⟨endCloses, natives endCloses, line, values, answered⟩

theorem Idle.serve (h : i.Idle Native) (keeps : ∀ f, Native f → f.KeepsFrames) (r : Request) :
    (i.serve r).2.Idle Native := by
  obtain ⟨_, natives, line, values, ⟨t, values', typed, moved, after⟩, -⟩ := h.answers keeps r
  have same := moved.sameStack natives
  rw [after]
  exact h.of_sameStack rfl rfl ⟨same.height, same.depth, same.limit⟩

/-- Only requests can disturb an idle interpreter. -/
theorem Reachable.idle_of_serve (serves : ∀ {i : Interpreter} r, i.Idle Native → (i.serve r).2.Idle Native)
    (standard : ∀ f ∈ Library.standard, Native f) (h : i.Reachable Native) : i.Idle Native := by
  induction h with
  | new settings ticking => exact idle_new standard settings ticking
  | register _ f hf ih => exact ih.register hf
  | reset _ settings ih => exact ih.reset settings
  | serve _ r ih => exact serves r ih
  | report _ e source ih => exact ih.of_sameStack rfl rfl (State.sameStack_record _ _)
  | drain _ ih => exact ih.of_sameStack rfl rfl ⟨rfl, rfl, rfl⟩
  | write _ text ih => exact ih.of_sameStack rfl rfl ⟨rfl, rfl, rfl⟩
  | wait _ now ih => exact ih.of_sameStack rfl rfl ⟨rfl, rfl, rfl⟩

theorem Reachable.idle (keeps : ∀ f, Native f → f.KeepsFrames)
    (standard : ∀ f ∈ Library.standard, Native f) (h : i.Reachable Native) : i.Idle Native :=
  h.idle_of_serve (fun r hi => hi.serve keeps r) standard

end Idle

end Interpreter

end Gapscript
