import Gapscript.Proofs.Run.Lockstep
import Gapscript.Proofs.Session.Reachable
import Gapscript.Proofs.Session.Typed

/-!
# Larger limits

The limit of a state is only looked at when a frame is entered. A run that is refused none therefore
does the same under any larger limit and without one: the two runs pass through states beside each
other that differ in the limit alone. A refused frame ends the run, so the first run has been refused
none unless it ends with that failure.
-/

namespace Gapscript

/-- The state with another limit for its frames. -/
def State.limited (s : State) (limit : Int) : State := { s with maxDepth := limit }

/-- The interpreter with another limit for the frames of its state. -/
def Interpreter.limited (i : Interpreter) (limit : Int) : Interpreter :=
  { i with state := i.state.limited limit }

/-- The failure of an attempt to enter a frame beyond the limit. -/
def Error.RefusedPush (e : Error) : Prop := ∃ limit pos, e = .runtime ⟨.type (.callDepth limit), pos⟩

/-- The limit is larger than another one, or is none. -/
def Larger (limit limit' : Int) : Prop := limit' ≤ 0 ∨ limit ≤ limit'

namespace Run

variable {α : Type}

/-- The outcome with another limit in the state it ends in. -/
def limited (limit : Int) : EStateM.Result Error State α → EStateM.Result Error State α
  | .ok a t => .ok a (t.limited limit)
  | .error e t => .error e (t.limited limit)

/-- If it is refused no frame, the run does the same under another limit, which it leaves as it is. -/
def Deepens (x : Run α) (s : State) (limit : Int) : Prop :=
  (∀ e, x.failure? s = some e → ¬ e.RefusedPush) → x (s.limited limit) = limited limit (x s)

theorem deepens_ok {x : Run α} {s t : State} {limit : Int} {a : α} (run : x s = .ok a t)
    (run' : x (s.limited limit) = .ok a (t.limited limit)) : x.Deepens s limit := by
  intro _
  rw [run', run, limited]

theorem deepens_error {x : Run α} {s t : State} {limit : Int} {e : Error} (run : x s = .error e t)
    (run' : x (s.limited limit) = .error e (t.limited limit)) : x.Deepens s limit := by
  intro _
  rw [run', run, limited]

end Run

/-- A native function that keeps the stack and the limit, and is not concerned with the limit unless a
frame is refused to it. -/
structure HostFunction.IgnoresLimit (f : HostFunction) : Prop where
  stack : f.Obeys (fun _ => True) State.SameStack fun _ => True
  same : ∀ call s limit, 0 < s.maxDepth → Larger s.maxDepth limit → (f.handler call).Deepens s limit

/-! ## States that differ in the limit -/

namespace Bridge

/-- Two runs of one text from states that are `base` frames deep and differ in their limits. -/
def deeper (base : Nat) (limit limit' : Int) (limited : 0 < limit) (larger : Larger limit limit') : Bridge where
  shift := .still
  base := base
  Piece _ := True
  Line _ := True
  Windows := Eq
  Limits l l' := l = limit ∧ l' = limit'
  Deep k := (k : Int) ≤ limit
  Excused := Error.RefusedPush
  includes _ _ := trivial
  shorter _ _ := trivial
  line _ := trivial
  expired {w _ line} same _ now := by
    subst same
    rw [Shift.line_still]
  window {_ line} _ _ now := by
    rw [Shift.line_still]
  visible {n line} _ _ _ := by
    rw [Shift.line_still, Shift.line_still]
  enters {l l' k} limits free := by
    obtain ⟨rfl, rfl⟩ := limits
    have within : ¬ (k : Int) ≥ l := fun full => free ⟨limited, full⟩
    refine ⟨fun full => ?_, by push_cast; omega⟩
    rcases larger with none | le
    · omega
    · omega
  refuses _ _ := .inr ⟨_, none, rfl⟩
  located {e} pos refused := by
    obtain ⟨limit, place, rfl⟩ := refused
    obtain same | ⟨cause, fault, placed⟩ := Error.withPosition_cases (.runtime ⟨.type (.callDepth limit), place⟩) pos
    · rw [same]
      exact ⟨limit, place, rfl⟩
    · cases fault
      exact ⟨limit, pos, placed⟩

section Deeper

variable {base k : Nat} {limit limit' : Int} {limited : 0 < limit} {larger : Larger limit limit'} {s s' : State}

theorem holds_deeper (v : Value) : (deeper base limit limit' limited larger).source.Holds v := by
  cases v with
  | function f =>
    change Written _ f.code
    unfold Written
    cases f.code.body <;> trivial
  | _ => trivial

theorem bound_deeper (v : Variable) : (deeper base limit limit' limited larger).Bound v v :=
  ⟨rfl, (Shift.value_still v.value).symm, rfl, rfl, (Shift.line_still v.line).symm, rfl, rfl, holds_deeper v.value⟩

theorem eq_of_bound {v v' : Variable} (h : (deeper base limit limit' limited larger).Bound v v') : v = v' := by
  obtain ⟨name, value, mutability, life, line, hoisted, window⟩ := v
  obtain ⟨name', value', mutability', life', line', hoisted', window'⟩ := v'
  obtain rfl : name' = name := h.name
  obtain rfl : value' = value := h.value.trans (Shift.value_still value)
  obtain rfl : mutability' = mutability := h.mutability
  obtain rfl : life' = life := h.life
  obtain rfl : line' = line := h.line.trans (Shift.line_still line)
  obtain rfl : hoisted' = hoisted := h.hoisted
  obtain rfl : window = window' := h.window
  rfl

theorem eq_of_forall₂ {α : Type} {R : α → α → Prop} {l l' : List α} (h : List.Forall₂ R l l')
    (same : ∀ a b, R a b → a = b) : l = l' := by
  have equal := h.imp same
  rwa [List.forall₂_eq_eq_eq] at equal

theorem framed_deeper (f : Frame) : (deeper base limit limit' limited larger).Framed f f where
  vars := List.forall₂_same.2 fun v _ => bound_deeper v
  funcs := (List.map_id'' Shift.ref_still f.funcs).symm
  holds fn _ := holds_deeper (.function fn)

theorem eq_of_framed {f f' : Frame} (h : (deeper base limit limit' limited larger).Framed f f') : f = f' := by
  obtain ⟨vars, funcs⟩ := f
  obtain ⟨vars', funcs'⟩ := f'
  obtain rfl : vars = vars' := eq_of_forall₂ h.vars fun _ _ => eq_of_bound
  obtain rfl : funcs' = funcs := h.funcs.trans (List.map_id'' Shift.ref_still funcs)
  rfl

theorem eq_of_said {m m' : String} (h : Shift.still.Said m m') : m = m' := by
  cases h with
  | same => rfl
  | line before after line => rw [Shift.line_still]

theorem eq_of_recorded {r r' : Record} (h : Shift.still.Recorded r r') : r = r' := by
  obtain ⟨level, category, message, pos, context⟩ := r
  obtain ⟨level', category', message', pos', context'⟩ := r'
  obtain rfl : level' = level := h.level
  obtain rfl : category' = category := h.category
  obtain rfl : message = message' := eq_of_said h.message
  obtain rfl : pos' = pos := h.pos.trans (Shift.map_still Shift.position_still pos)
  obtain rfl : context' = context := h.context
  rfl

theorem watch_still (w : Watch) : Shift.still.watch w = w := by
  obtain ⟨branches, deps, snapshot, firing, line, height⟩ := w
  unfold Shift.watch
  dsimp only
  rw [List.map_id'' Shift.branch_still, List.map_id'' Shift.value_still, Shift.line_still]

theorem produced_still (vs : Array Value) : vs.map Shift.still.value = vs := by
  have same : Shift.still.value = id := funext Shift.value_still
  rw [same, Array.map_id]

/-- A state that is tall enough is beside itself under the other limit. -/
theorem beside_of_tall (tall : (deeper base limit limit' limited larger).Tall k s) (under : s.maxDepth = limit) :
    (deeper base limit limit' limited larger).Beside k s (s.limited limit') where
  toTall := tall
  frames := List.forall₂_same.2 fun f _ => framed_deeper f
  depth' := tall.depth
  limits := ⟨under, rfl⟩
  line := (Shift.line_still s.line).symm
  here := trivial
  now := rfl
  ticking := rfl
  watches := (List.map_id'' watch_still s.watches).symm
  watched _ _ := ⟨fun _ _ => trivial, fun _ _ _ _ => trivial⟩
  heap := (Shift.heap_still s.heap).symm
  filled _ _ _ _ _ _ := holds_deeper _
  identities := rfl
  hoistedFunctions := rfl
  produced := (produced_still s.produced).symm
  output := rfl
  records := List.forall₂_same.2 fun r _ => ⟨rfl, rfl, .same _, (Shift.map_still Shift.position_still r.pos).symm, rfl⟩

theorem beside_limited (s : State) (limit' : Int) (limited : 0 < s.maxDepth) (larger : Larger s.maxDepth limit') :
    (deeper s.depth s.maxDepth limit' limited larger).Beside s.depth s (s.limited limit') :=
  beside_of_tall ⟨rfl, Nat.le_refl _, Nat.le_add_right _ _⟩ rfl

theorem names_limited (s : State) (limit' : Int) (limited : 0 < s.maxDepth) (larger : Larger s.maxDepth limit') :
    (s.limited limit').names = s.names :=
  (beside_limited s limit' limited larger).names.trans (Shift.names_still s.names)

theorem eq_limited_of_beside (h : (deeper base limit limit' limited larger).Beside k s s') :
    s' = s.limited limit' := by
  obtain ⟨frames, depth, maxDepth, line, now, ticking, watches, heap, identities, hoisted, produced, output,
    records⟩ := s
  obtain ⟨frames', depth', maxDepth', line', now', ticking', watches', heap', identities', hoisted', produced',
    output', records'⟩ := s'
  obtain rfl : frames = frames' := eq_of_forall₂ h.frames fun _ _ => eq_of_framed
  obtain rfl : depth = k := h.depth
  obtain rfl : depth' = depth := h.depth'
  obtain rfl : maxDepth' = limit' := h.limits.2
  obtain rfl : line' = line := h.line.trans (Shift.line_still line)
  obtain rfl : now' = now := h.now
  obtain rfl : ticking' = ticking := h.ticking
  obtain rfl : watches' = watches := h.watches.trans (List.map_id'' watch_still watches)
  obtain rfl : heap' = heap := h.heap.trans (Shift.heap_still heap)
  obtain rfl : identities' = identities := h.identities
  obtain rfl : hoisted' = hoisted := h.hoistedFunctions
  obtain rfl : produced' = produced := h.produced.trans (produced_still produced)
  obtain rfl : output' = output := h.output
  obtain rfl : records = records' :=
    Array.toList_inj.1 (eq_of_forall₂ h.records fun _ _ => eq_of_recorded)
  rfl

/-- Runs that stay abreast do the same under both limits. -/
theorem deepens_of_abreast {α : Type} {x : Run α} {f : α → α} {Q : α → Prop} (same : ∀ a, f a = a)
    (h : (deeper base limit limit' limited larger).Abreast k s (s.limited limit') f Q x x) :
    x.Deepens s limit' := by
  cases h with
  | ok a t t' run run' beside =>
    rw [same, eq_limited_of_beside beside] at run'
    exact Run.deepens_ok run run'
  | error e t t' run run' beside =>
    rw [show (deeper base limit limit' limited larger).shift.error e = e from Shift.error_still e,
      eq_limited_of_beside beside] at run'
    exact Run.deepens_error run run'
  | excused e t run tall excused =>
    intro entered
    exact absurd excused (entered e (Run.failure?_eq_some.2 ⟨t, run⟩))

theorem invocation_still (call : Invocation) : Shift.still.invocation call = call := by
  obtain ⟨args, pos⟩ := call
  rw [Shift.invocation, List.map_id'' Shift.value_still, Shift.map_still Shift.position_still]

theorem respects_deeper {f : HostFunction} (hf : f.IgnoresLimit) :
    (deeper base limit limit' limited larger).Respects f := by
  intro k s s' call hs _
  obtain rfl := eq_limited_of_beside hs
  obtain rfl : s.maxDepth = limit := hs.limits.1
  rw [show (deeper base s.maxDepth limit' limited larger).shift.invocation call = call from invocation_still call]
  have same := hf.same call s limit' limited larger
  obtain ⟨stack, -⟩ := hf.stack call s trivial
  have after {t : State} (kept : s.SameStack t) :
      (deeper base s.maxDepth limit' limited larger).Beside k t (t.limited limit') :=
    beside_of_tall ⟨kept.depth.trans hs.depth, hs.above, kept.height ▸ hs.height⟩ kept.limit
  cases run : f.handler call s with
  | ok v t =>
    rw [Run.reached, run] at stack
    have run' := same (fun e he => by rw [Run.failure?, run] at he; cases he)
    rw [run] at run'
    exact .ok v t _ run (by rw [run']; exact congrArg (EStateM.Result.ok · _) (Shift.value_still v).symm)
      (after stack) (holds_deeper v)
  | error e t =>
    rw [Run.reached, run] at stack
    by_cases refused : e.RefusedPush
    · have tall := (after stack).toTall
      exact .excused e t run tall refused
    · have run' := same (fun e' he => by rw [Run.failure?, run] at he; cases he; exact refused)
      rw [run] at run'
      exact .error e t _ run (by rw [run']; exact congrArg (EStateM.Result.error · _) (Shift.error_still e).symm)
        (after stack)

/-- The larger limit leaves as much room as the other one, which is enough for every frame that can be
entered under it. -/
theorem spacious_deeper (word : limit ≤ Number.greatestWord)
    (hs : (deeper base limit limit' limited larger).Beside k s s') :
    (deeper base limit limit' limited larger).Spacious k s.room s'.room := by
  obtain rfl := eq_limited_of_beside hs
  obtain rfl : s.maxDepth = limit := hs.limits.1
  have depth : s.depth = k := hs.depth
  have room : s.room = (s.maxDepth - k).toNat := by rw [State.room, if_pos limited, depth]
  rw [room]
  refine .inr ⟨?_, fun j deep => ?_⟩
  · unfold State.room State.limited
    dsimp only
    rw [depth]
    rcases larger with none | le
    · rw [if_neg (by omega)]
      omega
    · split <;> omega
  · change ((k + j : Nat) : Int) ≤ s.maxDepth at deep
    omega

end Deeper

end Bridge

/-! ## Requests -/

namespace Interpreter

variable {i : Interpreter} {limit : Int}

theorem evaluating_limited {x : Run Value} (deepens : (i.watched x).Deepens i.state limit)
    (entered : ∀ e, (i.evaluating x).1.error = some e → ¬ e.RefusedPush) :
    (i.limited limit).evaluating x = ((i.evaluating x).1, (i.evaluating x).2.limited limit) := by
  rw [(i.evaluating_eq x).1] at entered
  have same := deepens entered
  cases run : i.watched x i.state with
  | ok v t =>
    rw [run] at same
    rw [evaluating_of_ok run]
    exact evaluating_of_ok (i := i.limited limit) same
  | error e t =>
    rw [run] at same
    rw [evaluating_of_error run]
    exact evaluating_of_error (i := i.limited limit) same

theorem collecting_limited {x : Run Unit} (deepens : x.Deepens { i.state with produced := #[] } limit)
    (entered : ∀ e, (i.collecting x).1.error = some e → ¬ e.RefusedPush) :
    (i.limited limit).collecting x = ((i.collecting x).1, (i.collecting x).2.limited limit) := by
  rw [(i.collecting_eq x).1] at entered
  have same := deepens entered
  cases run : x { i.state with produced := #[] } with
  | ok _ t =>
    rw [run] at same
    rw [collecting_of_ok run]
    exact collecting_of_ok (i := i.limited limit) same
  | error e t =>
    rw [run] at same
    rw [collecting_of_error run]
    exact collecting_of_error (i := i.limited limit) same

section Serve

variable (natives : ∀ f ∈ i.functions, f.IgnoresLimit) (limited : 0 < i.state.maxDepth)
  (word : i.state.maxDepth ≤ Number.greatestWord) (larger : Larger i.state.maxDepth limit)

include natives in
theorem respects_functions {base : Nat} {l : Int} {hl : 0 < l} {larger : Larger l limit} (endCloses : Bool) :
    ∀ f ∈ (i.host endCloses).functions, (Bridge.deeper base l limit hl larger).Respects f :=
  fun f hf => Bridge.respects_deeper (natives f hf)

include natives limited word larger

/-- A source text is run the same under the larger limit. -/
theorem deepens_source (endCloses : Bool) (c : Cursor) :
    Run.Deepens (do let _ ← runSource (i.host endCloses) c : Run Unit) { i.state with produced := #[] } limit := by
  let s : State := { i.state with produced := #[] }
  have beside := Bridge.beside_limited s limit limited larger
  have spacious := Bridge.spacious_deeper word beside
  have run := Bridge.abreast_runSource (respects_functions natives endCloses) beside spacious (c := c) trivial
  have place : (Bridge.deeper s.depth s.maxDepth limit limited larger).shift.cursor c = c := Shift.cursor_still c
  rw [place] at run
  exact Bridge.deepens_of_abreast (fun _ => rfl)
    (run.bind (g := id) (R := fun _ => True) fun _ t t' _ ht => Bridge.abreast_pure ht rfl trivial)

/-- What ends with a value, and then looks at the watches, is run the same under the larger limit. -/
theorem value_limited {x : Run Value} {f : Value → Value} {Q : Value → Prop} (same : ∀ v, f v = v)
    (run : (Bridge.deeper i.state.depth i.state.maxDepth limit limited larger).Abreast i.state.depth i.state
      (i.state.limited limit) f Q x x)
    (entered : ∀ e, (i.evaluating x).1.error = some e → ¬ e.RefusedPush) :
    (i.limited limit).evaluating x = ((i.evaluating x).1, (i.evaluating x).2.limited limit) := by
  refine evaluating_limited (Bridge.deepens_of_abreast same (run.bind (R := Q) fun v t t' hv ht => ?_)) entered
  have spacious := Bridge.spacious_deeper word ht
  refine (Bridge.abreast_runWatches (respects_functions natives false) spacious ht).bind ?_
  exact fun _ u u' _ hu => Bridge.abreast_pure hu rfl hv

theorem statements_limited {input : String}
    (entered : ∀ e, (i.answerStatements input).1.error = some e → ¬ e.RefusedPush) :
    (i.limited limit).answerStatements input =
      ((i.answerStatements input).1, (i.answerStatements input).2.limited limit) :=
  collecting_limited (deepens_source (i := i.typing input) natives limited word larger true _) entered

theorem expression_limited {input : String} {e : Expr} (read : i.ReadsAs input e)
    (entered : ∀ e', (i.answerExpression input e).1.error = some e' → ¬ e'.RefusedPush) :
    (i.limited limit).answerExpression input e =
      ((i.answerExpression input e).1, (i.answerExpression input e).2.limited limit) := by
  let s := (i.typing input).state
  let B := Bridge.deeper s.depth s.maxDepth limit limited larger
  have beside : B.Beside s.depth s (s.limited limit) := Bridge.beside_limited s limit limited larger
  have sourced : e.Sourced B.source :=
    (twins_fullExpression beside.accord (Bridge.covers_of_piece (c := i.typedText input) trivial)).gives.of_outcome_ok
      read
  have respects : ∀ f ∈ ((i.typing input).host false).functions, B.Respects f :=
    respects_functions (i := i.typing input) natives false
  have run : B.Abreast s.depth s (s.limited limit) B.shift.value B.source.Holds
      (do
        Run.debug .repl "evaluating input as an expression"
        Run.locate (some i.typedStart) (runExpression ((i.typing input).host false) e))
      (do
        Run.debug .repl "evaluating input as an expression"
        Run.locate (some i.typedStart) (runExpression ((i.typing input).host false) e)) := by
    refine (Bridge.abreast_debug beside .repl (.same _)).bind fun _ t t' _ ht => ?_
    have inside := Bridge.abreast_runExpression respects (Bridge.spacious_deeper word ht) ht sourced
    rw [show B.shift.expr e = e from Shift.expr_still e] at inside
    exact inside.locate (Shift.map_still Shift.position_still _).symm
  exact value_limited (i := i.typing input) natives limited word larger Shift.value_still run entered

omit natives word in
theorem readsAs_limited {input : String} {e : Expr} :
    (i.limited limit).ReadsAs input e ↔ i.ReadsAs input e := by
  have names : ((i.limited limit).typing input).state.names = (i.typing input).state.names :=
    Bridge.names_limited (i.typing input).state limit limited larger
  unfold ReadsAs
  rw [names]
  rfl

/-- Typed input is answered the same under the larger limit. -/
theorem typed_limited (input : String)
    (entered : ∀ e, (i.evaluateTyped input).1.error = some e → ¬ e.RefusedPush) :
    (i.limited limit).evaluateTyped input =
      ((i.evaluateTyped input).1, (i.evaluateTyped input).2.limited limit) := by
  have reads {e : Expr} : (i.limited limit).ReadsAs input e ↔ i.ReadsAs input e :=
    readsAs_limited limited larger
  by_cases read : ∃ e, i.ReadsAs input e
  · obtain ⟨e, read⟩ := read
    rw [evaluateTyped_of_readsAs read] at entered ⊢
    rw [evaluateTyped_of_readsAs (reads.2 read)]
    split
    · next bare =>
      rw [if_pos bare] at entered
      exact statements_limited natives limited word larger entered
    · next bare =>
      rw [if_neg bare] at entered
      exact expression_limited natives limited word larger read entered
  · have unread (e : Expr) : ¬ i.ReadsAs input e := fun he => read ⟨e, he⟩
    rw [evaluateTyped_of_not_readsAs unread] at entered ⊢
    rw [evaluateTyped_of_not_readsAs fun e he => unread e (reads.1 he)]
    exact statements_limited natives limited word larger entered

/-- A call is answered the same under the larger limit. -/
theorem call_limited (name : String) (args : List Value)
    (entered : ∀ e, (i.call name args).1.error = some e → ¬ e.RefusedPush) :
    (i.limited limit).call name args = ((i.call name args).1, (i.call name args).2.limited limit) := by
  have names := Bridge.names_limited i.state limit limited larger
  have same : (i.limited limit).state.lookupCallable false name = i.state.lookupCallable false name :=
    congrArg (fun names : Names => names.callee? false name) names
  unfold call at entered ⊢
  rw [same]
  cases hfn : i.state.lookupCallable false name with
  | none => rfl
  | some fn =>
    rw [hfn] at entered
    let B := Bridge.deeper i.state.depth i.state.maxDepth limit limited larger
    have beside := Bridge.beside_limited i.state limit limited larger
    have given : ∀ v ∈ args, B.source.Holds v := fun v _ => Bridge.holds_deeper v
    have run := Bridge.abreast_runCall (respects_functions natives false) (Bridge.spacious_deeper word beside)
      beside (Bridge.holds_deeper (.function fn)) given
    have code : B.shift.ref fn = fn := Shift.ref_still fn
    have values : args.map B.shift.value = args := List.map_id'' Shift.value_still args
    rw [code, values] at run
    exact value_limited natives limited word larger Shift.value_still run entered

end Serve

/-- A request that is refused no frame is answered the same under any larger limit and without one: with
the same values, failure, output and state, but for the limit itself. -/
theorem serve_limited {i : Interpreter} (natives : ∀ f ∈ i.functions, f.IgnoresLimit)
    (limited : 0 < i.state.maxDepth) (word : i.state.maxDepth ≤ Number.greatestWord) {limit : Int}
    (larger : Larger i.state.maxDepth limit) (r : Request)
    (entered : ∀ e, (i.serve r).1.error = some e → ¬ e.RefusedPush) :
    (i.limited limit).serve r = ((i.serve r).1, (i.serve r).2.limited limit) := by
  cases r with
  | source text file =>
    exact collecting_limited (deepens_source natives limited word larger false (Cursor.start text file))
      entered
  | typed input => exact typed_limited natives limited word larger input entered
  | call name args => exact call_limited natives limited word larger name args entered

end Interpreter

theorem ignoresLimit_standard {f : HostFunction} (hf : f ∈ Library.standard) : f.IgnoresLimit := by
  refine ⟨Library.obeys_standard hf (fun same => same.sameStack) fun _ => trivial, fun call s limit _ _ _ => ?_⟩
  simp only [Library.standard, List.mem_cons, List.not_mem_nil, or_false] at hf
  rcases hf with rfl | rfl | rfl | rfl | rfl
  · rfl
  · cases holds : call.first.toBoolean with
    | true => rw [Library.assert_handler_of_true holds, Library.assert_handler_of_true holds]; rfl
    | false => rw [Library.assert_handler_of_false holds, Library.assert_handler_of_false holds]; rfl
  · rfl
  · by_cases invalid : Library.Unwaitable call
    · rw [Library.sleep_handler_of_unwaitable invalid, Library.sleep_handler_of_unwaitable invalid]
      rfl
    · rw [Library.sleep_handler_of_not_unwaitable invalid, Library.sleep_handler_of_not_unwaitable invalid]
      -- Only a ticking clock moves.
      obtain ⟨_, _, _, _, _, ticking⟩ := s
      cases ticking <;> rfl
  · rfl

/-- A call inside a block enters two frames, as many as the limit allows. -/
theorem serve_limited_nested :
    let i := Interpreter.new { maxScopeDepth := 2 } false
    let r := Request.source "function f x => x + 1n!\nif true \x7b print f(1n)! \x7d\n" ""
    i.state.maxDepth = 2 ∧ (i.serve r).1.error = none ∧ (i.serve r).2.state.output = "2\n" ∧
      (i.limited 0).serve r = ((i.serve r).1, (i.serve r).2.limited 0) := by
  intro i r
  have idle : i.Idle HostFunction.IgnoresLimit :=
    Interpreter.idle_new (fun f hf => ignoresLimit_standard hf) { maxScopeDepth := 2 } false
  have limit : i.state.maxDepth = 2 := idle.limit
  have ends : (i.serve r).1.error = none := by decide +kernel
  refine ⟨limit, ends, by decide +kernel, ?_⟩
  refine Interpreter.serve_limited idle.natives (by rw [limit]; decide) (by rw [limit]; decide)
    (.inl (Int.le_refl 0)) r fun e he => ?_
  rw [ends] at he
  cases he

end Gapscript
