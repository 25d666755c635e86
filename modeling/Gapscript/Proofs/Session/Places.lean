import Gapscript.Proofs.Run.Blamed
import Gapscript.Proofs.Session.Diagnostics
import Gapscript.Proofs.Session.Repl

/-!
# Failures of typed input

The evaluation of a typed input begins with its statements or its expression, and comes to the tasks that these
lead to (`Interpreter.ComesTo`). Nothing recovers from a failure on the way, so the failures that begin with any
of them are the one that the evaluation ends with (`ComesTo.fails`).

The lines that an interpreter keeps are a ledger of everything its programs can get hold of: typing adds
lines behind those that are there already, so what was typed earlier stays where it is, and a reset
forgets the lines together with everything that was made of them (`Interpreter.Accounted`). A failure of
typed input therefore begins over a piece of the lines, however long ago it was typed, and its place is where
this piece stands in them (`typed_failures_placed`).
-/

namespace Gapscript

open Cursor Reading

/-! ## What typed input comes to -/

namespace Interpreter

variable (i : Interpreter) (input : String)

/-- The state in which the statements of a typed input start. -/
def statementsState : State := { (i.typing input).state with produced := #[] }

/-- The state in which a typed input is evaluated as an expression. -/
def expressionState : State :=
  (i.typing input).state.record
    { level := .debug, category := .repl, message := "evaluating input as an expression" }

/-- The evaluation of a typed input begins with the task: with the statements of the input, with the expression
that it reads as, or with a look at the watches in the state that the expression has left behind. -/
inductive Begins : Bool → Task → Prop
  | statements (bare : ∀ e, i.ReadsAs input e → e.hasImplicit = true) :
    Begins true
      ⟨(i.statementsState input).room + 1, .statements true ⟨input.toList, i.typedStart⟩, i.statementsState input⟩
  | expression {e : Expr} (read : i.ReadsAs input e) (meant : e.hasImplicit = false) :
    Begins false
      ⟨(i.expressionState input).room + 1, .input ⟨(i.typing input).state.names, i.typedText input⟩ e,
        i.expressionState input⟩
  | watches {e : Expr} {v : Value} {s : State} (read : i.ReadsAs input e) (meant : e.hasImplicit = false)
    (ran : runExpression (i.host false) e (i.expressionState input) = .ok v s) :
    Begins false ⟨s.room + 1, .look, s⟩

/-- The evaluation of a typed input comes to the task. -/
def ComesTo (endCloses : Bool) (τ : Task) : Prop :=
  ∃ root, i.Begins input endCloses root ∧ Relation.ReflTransGen (Starts (i.host endCloses)) root τ

variable {i input} {endCloses : Bool} {τ : Task} {e : Error} {p : Position}

theorem failure?_of_breaks {α : Type} {x : Run α} {s : State} (h : x.Breaks e s) :
    ∃ e', x.failure? s = some e' ∧ (e' = e ∨ e'.RefusedPop) := by
  obtain ⟨e', t, run, kept⟩ := h
  exact ⟨e', Run.failure?_eq_some.2 ⟨t, run⟩, kept⟩

/-- What the evaluation begins with fails with what the evaluation ends with. -/
theorem Begins.breaks (h : i.Begins input endCloses τ) (broken : τ.Breaks (i.host endCloses) e) :
    ∃ e', (i.evaluateTyped input).1.error = some e' ∧ (e' = e ∨ e'.RefusedPop) := by
  cases h with
  | statements bare =>
    rw [evaluateTyped_of_bare bare, answerStatements, typedStatements, (collecting_eq _ _).1]
    exact failure?_of_breaks (Run.Breaks.bind (breaks_runSource broken))
  | expression read meant =>
    rw [evaluateTyped_of_readsAs read, if_neg (Bool.eq_false_iff.1 meant), answerExpression, (evaluating_eq _ _).1]
    exact failure?_of_breaks (Run.Breaks.bind (Run.Breaks.modify_bind (breaks_input broken)))
  | @watches tree v s read meant ran =>
    rw [evaluateTyped_of_readsAs read, if_neg (Bool.eq_false_iff.1 meant), answerExpression, (evaluating_eq _ _).1]
    have located : Run.locate (some i.typedStart) (runExpression (i.host false) tree) (i.expressionState input) =
        .ok v s := by rw [Run.locate, ran]
    have first : (do
        Run.debug .repl "evaluating input as an expression"
        Run.locate (some i.typedStart) (runExpression (i.host false) tree) : Run Value)
        (i.typing input).state = .ok v s := located
    exact failure?_of_breaks (breaks_after first (Run.Breaks.bind (breaks_runWatches broken)))

/-- A failure that begins with something that the evaluation comes to is what the evaluation ends with. -/
theorem ComesTo.fails (h : i.ComesTo input endCloses τ) {d : Cursor} (raises : Raises (i.host endCloses) τ e d) :
    ∃ e', (i.evaluateTyped input).1.error = some e' ∧ (e' = e ∨ e'.RefusedPop) := by
  obtain ⟨root, begins, reached⟩ := h
  exact begins.breaks (breaks_of_starts reached raises.place raises.breaks)

end Interpreter

namespace Ledger

variable {k : Ledger} {s : State}

/-! ## Functions of the host -/

theorem native_standard {f : HostFunction} (hf : f ∈ Library.standard) : k.Native f := by
  intro call s hs _
  cases Library.answers_standard hf call s with
  | value run reply same =>
    obtain ⟨_, _, _, _, rfl⟩ := same
    refine keeps_of_ok run (hs.congr rfl rfl rfl) ?_
    cases reply <;> trivial
  | complaint run _ place => exact keeps_of_error run hs (.inr place)

/-- What a function of the host is bound to was not typed. -/
theorem callable_native {fn : Function} {slot arity : Nat} (h : fn.body = .native slot arity) :
    k.Callable fn := by
  intro text pos block script
  rw [h] at script
  cases script

theorem kept_foldl_define (hs : k.Kept s) {fns : List FunctionRef}
    (holds : ∀ fn ∈ fns, k.source.Holds (.function fn)) : k.Kept (fns.foldl State.define s) :=
  List.foldlRecOn fns State.define hs fun _ ht fn among => ht.define (holds fn among)

/-- Where nothing is bound or watched, nothing has to be typed, if the ledger begins with the objects that
are made from now on. -/
theorem kept_blank (frames : s.frames = [{}]) (watches : s.watches = [])
    (base : k.base = s.heap.objects.size) : k.Kept s where
  frames f hf := by
    rw [frames] at hf
    cases List.mem_singleton.1 hf
    exact .empty
  heap ref o href ho := by
    obtain ⟨old, -⟩ := Array.getElem?_eq_some_iff.1 ho
    change k.base ≤ ref at href
    omega
  fresh ref new := base.trans_le new
  watches w hw := by
    rw [watches] at hw
    cases hw

/-! ## More lines -/

/-- The ledger with an input that was typed behind it. -/
def typing (k : Ledger) (input : String) : Ledger where
  lines := k.lines ++ input.splitOn "\n"
  unbroken line among := by
    rcases List.mem_append.1 among with earlier | typed
    · exact k.unbroken line earlier
    · exact newline_notMem_of_mem_splitOn typed
  base := k.base

variable {input : String} {c : Cursor}

theorem Typed.typing (h : k.Typed c) : (k.typing input).Typed c := by
  obtain ⟨before, earlier, later, lines, cursor, tidy⟩ := h
  refine ⟨before, earlier, later ++ input.splitOn "\n", ?_, cursor, tidy⟩
  change k.lines ++ input.splitOn "\n" = _
  rw [lines]
  simp only [List.append_assoc]

theorem Piece.typing (h : k.Piece c) : (k.typing input).Piece c := by
  obtain ⟨d, typed, inside⟩ := h
  exact ⟨d, typed.typing, inside⟩

/-- What was typed earlier stands where it stood. -/
theorem Kept.typing (hs : k.Kept s) (input : String) : (k.typing input).Kept s := by
  refine State.Stocked.mono hs (fun v hv => ?_) (fun ref href => href) fun w hw b hb => ?_
  · cases v with
    | object ref => exact hv
    | function fn => exact fun text pos block body => (hv text pos block body).typing
    | _ => trivial
  · obtain ⟨body, guard⟩ := hw b hb
    exact ⟨body.typing, fun g hg => (guard g hg).typing⟩

theorem typed_typing (k : Ledger) (tidy : Text.Tidy input.toList) :
    (k.typing input).Typed ⟨input.toList, { line := k.lines.length + 1, file := typedSource }⟩ := by
  refine ⟨k.lines, input, [], ?_, rfl, tidy⟩
  rw [List.append_nil]
  rfl

/-! ## Answers -/

/-- The answer leaves a kept state behind, or a failure that `E` permits in addition. -/
structure Answers (k : Ledger) (i : Interpreter) (E : Error → Prop) (answer : Outcome × Interpreter) : Prop where
  kept : ∃ t, k.Kept t ∧ answer.2 = { i with state := t }
  error : ∀ e, answer.1.error = some e → E e

variable {i : Interpreter} {E : Error → Prop}

theorem answers_collecting {x : Run Unit} {Q : Unit → Prop}
    (h : k.Keeps E { i.state with produced := #[] } x Q) : k.Answers i E (i.collecting x) := by
  cases run : x { i.state with produced := #[] } with
  | ok a t =>
    rw [Interpreter.collecting_of_ok run]
    refine ⟨⟨{ t with produced := #[] }, (h.ok run).1.congr rfl rfl rfl, rfl⟩, fun e failed => ?_⟩
    cases failed
  | error e t =>
    rw [Interpreter.collecting_of_error run]
    refine ⟨⟨{ t with produced := #[] }, (h.error run).1.congr rfl rfl rfl, rfl⟩, ?_⟩
    rintro _ ⟨⟩
    exact (h.error run).2

theorem answers_evaluating {x : Run Value} {Q : Value → Prop} (h : k.Keeps E i.state (i.watched x) Q) :
    k.Answers i E (i.evaluating x) := by
  cases run : i.watched x i.state with
  | ok v t =>
    rw [Interpreter.evaluating_of_ok run]
    refine ⟨⟨t, (h.ok run).1, rfl⟩, fun e failed => ?_⟩
    cases failed
  | error e t =>
    rw [Interpreter.evaluating_of_error run]
    refine ⟨⟨t, (h.error run).1, rfl⟩, ?_⟩
    rintro _ ⟨⟩
    exact (h.error run).2

/-- If the failure has a place, it begins with a task that the evaluation of the input comes to, over a piece of
what was typed. -/
def PlacesTyped (k : Ledger) (i : Interpreter) (input : String) (e : Error) : Prop :=
  ∃ endCloses root, i.Begins input endCloses root ∧ k.Places (i.host endCloses) root e

section Typed

variable (natives : ∀ f ∈ i.functions, k.Native f) (kept : k.Kept (i.typing input).state)
  (typed : k.Piece ⟨input.toList, i.typedStart⟩)

include natives kept typed

theorem answers_answerStatements (bare : ∀ e, i.ReadsAs input e → e.hasImplicit = true) :
    k.Answers (i.typing input) (k.PlacesTyped i input) (i.answerStatements input) := by
  have start : k.Kept (i.statementsState input) := kept.congr rfl rfl rfl
  have run := @keeps_runSource k (i.host true) _ natives start _ typed
  have permitted := run.permit (F := k.PlacesTyped i input) fun e placed => ⟨true, _, .statements bare, placed⟩
  refine answers_collecting (Q := fun _ => True) ?_
  exact permitted.bind fun _ t _ _ ht => keeps_pure ht trivial

theorem answers_answerExpression {e : Expr} (read : i.ReadsAs input e) (meant : e.hasImplicit = false) :
    k.Answers (i.typing input) (k.PlacesTyped i input) (i.answerExpression input e) := by
  have piece : k.Piece (i.typedText input) := typed.includes (includes_of_isPrefix (Text.dropEnd_isPrefix _ _))
  have given := (twins_fullExpression (accord_names kept) piece.covers).gives
  have tree : k.Tree ⟨(i.typing input).state.names, i.typedText input⟩ e :=
    ⟨given.of_outcome_ok read, (concludes_fullExpression _).of_outcome_ok read, piece⟩
  have start : k.Kept (i.expressionState input) := kept.congr rfl rfl rfl
  have run := @keeps_runExpression k (i.host false) _ natives start _ _ tree
  have located := (run.starts .input).locate piece fun fails => .input ⟨fails.failed, fails.place⟩
  have permitted := located.permit (F := k.PlacesTyped i input)
    fun e placed => ⟨false, _, .expression read meant, placed⟩
  refine answers_evaluating (Q := k.source.Holds) ?_
  refine Keeps.bind (Keeps.modify_bind permitted) fun v t ran hv ht => ?_
  have begins : i.Begins input false ⟨t.room + 1, .look, t⟩ := .watches read meant (Run.locate_eq_ok ran)
  have watches := (@keeps_runWatches k (i.host false) _ natives ht).permit (F := k.PlacesTyped i input)
    fun e placed => ⟨false, _, begins, placed⟩
  exact watches.bind fun _ u _ _ hu => keeps_pure hu hv

end Typed

theorem answers_evaluateTyped (standard : ∀ f ∈ i.functions, f ∈ Library.standard)
    (lines : k.lines = i.typed) (hs : k.Kept i.state) (tidy : Text.Tidy input.toList) :
    (k.typing input).Answers (i.typing input) ((k.typing input).PlacesTyped i input) (i.evaluateTyped input) := by
  have natives : ∀ f ∈ i.functions, (k.typing input).Native f := fun f hf => native_standard (standard f hf)
  have kept : (k.typing input).Kept (i.typing input).state := (hs.typing input).congr rfl rfl rfl
  have typed : (k.typing input).Piece ⟨input.toList, i.typedStart⟩ := by
    have whole := (k.typed_typing tidy).piece
    rwa [lines] at whole
  by_cases bare : ∀ e, i.ReadsAs input e → e.hasImplicit = true
  · rw [Interpreter.evaluateTyped_of_bare bare]
    exact answers_answerStatements natives kept typed bare
  · push Not at bare
    obtain ⟨e, read, meant⟩ := bare
    rw [Interpreter.evaluateTyped_of_readsAs read, if_neg meant]
    exact answers_answerExpression natives kept typed read (Bool.eq_false_of_not_eq_true meant)

end Ledger

/-! ## Sessions -/

namespace Interpreter

open Ledger

/-- Everything that the interpreter holds is the host's, or was typed in the lines that it keeps. -/
structure Accounted (i : Interpreter) : Prop where
  standard : ∀ f ∈ i.functions, f ∈ Library.standard
  bound : ∀ fn ∈ i.natives, ∃ slot arity, fn.code.body = .native slot arity
  kept : ∃ k : Ledger, k.lines = i.typed ∧ k.Kept i.state

variable {i : Interpreter}

theorem Accounted.register (h : i.Accounted) {f : HostFunction} (hf : f ∈ Library.standard) :
    (i.register f).Accounted where
  standard g hg := by
    rcases Array.mem_push.1 hg with known | same
    · exact h.standard g known
    · exact same ▸ hf
  bound fn hfn := by
    rcases List.mem_append.1 hfn with known | new
    · exact h.bound fn known
    · cases List.mem_singleton.1 new
      exact ⟨_, _, rfl⟩
  kept := by
    obtain ⟨k, lines, hs⟩ := h.kept
    have numbered : k.Kept { i.state with identities := i.state.identities + 1 } := hs.congr rfl rfl rfl
    refine ⟨k, lines, (numbered.define ?_).congr rfl rfl rfl⟩
    exact callable_native rfl

theorem accounted_new (settings : Settings) (ticking : Bool) : (new settings ticking).Accounted := by
  refine List.foldlRecOn Library.standard Interpreter.register ?_ fun i hi f hf => hi.register hf
  refine ⟨fun f hf => absurd hf (Array.not_mem_empty f), (fun _ hf => nomatch hf), ?_⟩
  exact ⟨⟨[], (fun _ among => nomatch among), 0⟩, rfl, kept_blank rfl rfl rfl⟩

/-- A reset forgets all lines, and all that was made of them. -/
theorem Accounted.reset (h : i.Accounted) : i.reset.Accounted where
  standard := h.standard
  bound := h.bound
  kept := by
    refine ⟨⟨[], (fun _ among => nomatch among), i.state.heap.objects.size⟩, rfl, ?_⟩
    refine kept_foldl_define (kept_blank rfl rfl rfl) fun fn hfn => ?_
    obtain ⟨slot, arity, body⟩ := h.bound fn hfn
    exact callable_native body

/-- Typed input leaves what it made to the lines, and its failure begins over what stands in them. -/
theorem Accounted.evaluateTyped (h : i.Accounted) {input : String} (tidy : Text.Tidy input.toList) :
    (i.evaluateTyped input).2.Accounted ∧ ∀ e, (i.evaluateTyped input).1.error = some e →
      ∃ k : Ledger, k.lines = (i.evaluateTyped input).2.typed ∧ k.PlacesTyped i input e := by
  obtain ⟨k, lines, hs⟩ := h.kept
  obtain ⟨⟨t, ht, after⟩, error⟩ := answers_evaluateTyped h.standard lines hs tidy
  have typed : (k.typing input).lines = (i.typing input).typed := congrArg (· ++ input.splitOn "\n") lines
  rw [after]
  exact ⟨⟨h.standard, h.bound, _, typed, ht⟩, fun e failed => ⟨_, typed, error e failed⟩⟩

/-- Input is typed with white space of the language only, or the interpreter is reset. -/
inductive Action.Types : Action → Prop
  | reset : Action.Types .reset
  | input {input : String} (tidy : Text.Tidy input.toList) : Action.Types (.serve (.typed input))

/-- The lines that are kept after an action, given those before it. -/
def Action.lines (typed : List String) : Action → List String
  | .reset => []
  | .serve (.typed input) => typed ++ input.splitOn "\n"
  | _ => typed

theorem Accounted.play (h : i.Accounted) {actions : List Action} (types : ∀ a ∈ actions, a.Types) :
    (i.play actions).2.Accounted ∧ (i.play actions).2.typed = actions.foldl Action.lines i.typed := by
  induction actions generalizing i with
  | nil => exact ⟨h, rfl⟩
  | cons a actions ih =>
    obtain ⟨first, rest⟩ := List.forall_mem_cons.1 types
    cases first with
    | reset => exact ih h.reset rest
    | @input input tidy =>
      have later := ih (h.evaluateTyped tidy).1 rest
      rwa [typed_evaluateTyped] at later

theorem reachable_play {Native : HostFunction → Prop} (h : i.Reachable Native) {actions : List Action}
    (types : ∀ a ∈ actions, a.Types) : (i.play actions).2.Reachable Native := by
  induction actions generalizing i with
  | nil => exact h
  | cons a actions ih =>
    obtain ⟨first, rest⟩ := List.forall_mem_cons.1 types
    cases first with
    | reset => exact ih (h.reset i.settings) rest
    | @input input _ => exact ih (h.serve (.typed input)) rest

theorem typed_new (settings : Settings) (ticking : Bool) : (new settings ticking).typed = [] :=
  List.foldlRecOn (motive := fun i : Interpreter => i.typed = []) Library.standard register rfl
    fun _ hi _ _ => hi

end Interpreter

open Interpreter

/-- In a session of typed inputs and resets, the place of a failure is one of the lines typed since the
last reset. The evaluation comes to a task that the failure begins with, and the text at the place is what this
task was read from; no other failure, and none at another place, begins with anything that the evaluation comes
to. -/
theorem typed_failures_placed (settings : Settings) (ticking : Bool) {actions : List Action}
    (types : ∀ a ∈ actions, a.Types) {input : String} (tidy : Text.Tidy input.toList)
    {i : Interpreter} (reached : i = (session settings ticking actions).2) {e : Error}
    (failed : (i.evaluateTyped input).1.error = some e) {p : Position} (place : e.pos? = some p) :
    (i.evaluateTyped input).2.typed = actions.foldl Action.lines [] ++ input.splitOn "\n" ∧
      p.file = typedSource ∧ p.Within (i.evaluateTyped input).2.typed ∧
      (∃ endCloses τ d, i.ComesTo input endCloses τ ∧ Raises (i.host endCloses) τ e d ∧ d.pos = p ∧
        d.rest <+: textFrom (i.evaluateTyped input).2.typed p) ∧
      ∀ endCloses τ e' d, i.ComesTo input endCloses τ → Raises (i.host endCloses) τ e' d → e' = e ∧ d.pos = p := by
  obtain ⟨accounted, earlier⟩ := (accounted_new settings ticking).play types
  have fresh : (Interpreter.new settings ticking).Reachable HostFunction.KeepsFrames := .new settings ticking
  have reachable := reachable_play fresh types
  change (session settings ticking actions).2.Accounted at accounted
  change (session settings ticking actions).2.Reachable _ at reachable
  rw [← reached] at accounted reachable
  obtain ⟨k, lines, endCloses, root, begins, placed⟩ := (accounted.evaluateTyped tidy).2 e failed
  obtain ⟨τ, d, leads, raises, piece⟩ := placed p place
  obtain rfl : d.pos = p := Option.some.inj (raises.place.symm.trans place)
  obtain ⟨file, within, text⟩ := piece.found
  rw [lines] at within text
  refine ⟨?_, file, within, ⟨endCloses, τ, d, ⟨root, begins, leads⟩, raises, rfl, text⟩, ?_⟩
  · rw [typed_evaluateTyped, reached, ← typed_new settings ticking]
    exact congrArg (· ++ input.splitOn "\n") earlier
  · intro endCloses' τ' e' d' comes raises'
    obtain ⟨e'', failed', same | refused⟩ := comes.fails raises'
    · obtain rfl : e' = e := same.symm.trans (Option.some.inj (failed'.symm.trans failed))
      exact ⟨rfl, Option.some.inj (raises'.place.symm.trans place)⟩
    · exact absurd refused (@not_refusedPop_serve i reachable (.typed input) e'' failed')

/-- A function that was typed over several lines fails when it is called later on, after a reset and two
inputs: its operand is to blame, in the second line. -/
theorem typed_failures_placed_function :
    ∃ i e p, i = (session {} false [.serve (.typed "old = 1n!"), .reset,
        .serve (.typed "function f => \x7b\n  return 1n * null.a!\n\x7d"), .serve (.typed "x = 2n!")]).2 ∧
      (i.evaluateTyped "x +\n f").1.error = some e ∧ e.pos? = some p ∧ p.line = 2 ∧ p.column = 15 ∧
      textFrom (i.evaluateTyped "x +\n f").2.typed p = "null.a!\n\x7d\nx = 2n!\nx +\n f".toList ∧
      p.Within (i.evaluateTyped "x +\n f").2.typed ∧
      (∃ endCloses τ d, i.ComesTo "x +\n f" endCloses τ ∧ Raises (i.host endCloses) τ e d ∧ d.pos = p ∧
        d.rest <+: textFrom (i.evaluateTyped "x +\n f").2.typed p) ∧
      ∀ endCloses τ e' d, i.ComesTo "x +\n f" endCloses τ → Raises (i.host endCloses) τ e' d →
        e' = e ∧ d.pos = p := by
  have types : ∀ a ∈ [Action.serve (.typed "old = 1n!"), .reset,
      .serve (.typed "function f => \x7b\n  return 1n * null.a!\n\x7d"), .serve (.typed "x = 2n!")],
      a.Types := by
    simp only [List.forall_mem_cons, List.not_mem_nil, false_implies, implies_true, and_true]
    exact ⟨.input (by decide +kernel), .reset, .input (by decide +kernel), .input (by decide +kernel)⟩
  obtain ⟨i, reached⟩ : ∃ i, i = (session {} false [.serve (.typed "old = 1n!"), .reset,
      .serve (.typed "function f => \x7b\n  return 1n * null.a!\n\x7d"), .serve (.typed "x = 2n!")]).2 :=
    ⟨_, rfl⟩
  have failed : ((i.evaluateTyped "x +\n f").1.error.bind Error.pos?).any
      (fun p => p.line == 2 && p.column == 15) = true := by rw [reached]; decide +kernel
  obtain ⟨p, here, at2⟩ := (Option.any_eq_true _ _).1 failed
  obtain ⟨e, error, place⟩ := Option.bind_eq_some_iff.1 here
  rw [Bool.and_eq_true, beq_iff_eq, beq_iff_eq] at at2
  obtain ⟨line, column⟩ := at2
  obtain ⟨typed, -, within, blames⟩ :=
    typed_failures_placed {} false types (by decide +kernel) reached error place
  refine ⟨i, e, p, reached, error, place, line, column, ?_, within, blames⟩
  have lines : (i.evaluateTyped "x +\n f").2.typed =
      ["function f => \x7b", "  return 1n * null.a!", "\x7d", "x = 2n!", "x +", " f"] := by
    rw [typed]
    simp only [List.foldl, Action.lines, splitOn_newline]
    rfl
  rw [lines, textFrom, line, column]
  change List.drop 14 ("\n".intercalate ["  return 1n * null.a!", "\x7d", "x = 2n!", "x +", " f"]).toList = _
  rw [toList_join_cons]
  rfl

end Gapscript
