import Gapscript.Proofs.Text.Lines
import Gapscript.Proofs.Session.Reachable
import Gapscript.Proofs.Session.Typed
import Gapscript.Session.Repl

/-!
# Every typed line is evaluated once

A session keeps each line it takes, except for blank ones that come while no input is open. The
lines it has kept are those already typed into the interpreter, in order, followed by the pending
ones: `takes_of_handleLine` says what one line does, and `Repl.Keeps` what any number of them did.
Input is handed to the interpreter as soon as it is complete, once, and whether its evaluation fails
makes no difference to the session.
-/

namespace Gapscript

/-- Lines as one text. -/
def joined (lines : List String) : String := "\n".intercalate lines

namespace Interpreter

theorem typed_collecting (i : Interpreter) (x : Run Unit) : (i.collecting x).2.typed = i.typed := by
  obtain ⟨-, after⟩ := i.collecting_eq x
  rw [after]

theorem typed_evaluating (i : Interpreter) (x : Run Value) : (i.evaluating x).2.typed = i.typed := by
  obtain ⟨-, after⟩ := i.evaluating_eq x
  rw [after]

theorem typed_evaluateTyped (i : Interpreter) (input : String) :
    (i.evaluateTyped input).2.typed = i.typed ++ input.splitOn "\n" := by
  rw [evaluateTyped_eq]
  unfold answerTyped
  split
  · split
    · exact typed_collecting (i.typing input) _
    · exact typed_evaluating (i.typing input) _
  · exact typed_collecting (i.typing input) _

end Interpreter

namespace Repl

/-! ## One line -/

/-- What a session does with the answer to its input: a failure is reported, and the last value is
shown. -/
inductive Tells (answer : Outcome × Interpreter) (input : String) : Interpreter → Prop
  | failure (e : Error) : answer.1.error = some e → Tells answer input (answer.2.report e input)
  | value (v : Value) : answer.1.error = none → answer.1.values.getLast? = some v →
      Tells answer input
        { answer.2 with state := answer.2.state.write (resultText answer.2.state.heap v) }
  | nothing : answer.1.error = none → answer.1.values = [] → Tells answer input answer.2

theorem tells_evaluateInput (i : Interpreter) (input : String) :
    Tells (i.evaluateTyped input) input (evaluateInput i input) := by
  unfold evaluateInput
  generalize i.evaluateTyped input = answer
  obtain ⟨⟨values, error⟩, after⟩ := answer
  cases error with
  | some e => exact .failure e rfl
  | none =>
    cases last : values.getLast? with
    | some v =>
      dsimp only
      rw [last]
      exact .value v rfl last
    | none =>
      dsimp only
      rw [last]
      exact .nothing rfl (List.getLast?_eq_none_iff.mp last)

theorem Tells.typed {answer : Outcome × Interpreter} {input : String} {i : Interpreter}
    (h : Tells answer input i) : i.typed = answer.2.typed := by
  cases h <;> rfl

/-- The interpreter has the lines of an input behind those typed earlier once it was evaluated. -/
theorem typed_evaluateInput (i : Interpreter) {lines : List String} (some : lines ≠ [])
    (free : ∀ line ∈ lines, '\n' ∉ line.toList) :
    (evaluateInput i (joined lines)).typed = i.typed ++ lines := by
  rw [(tells_evaluateInput i _).typed, Interpreter.typed_evaluateTyped, joined,
    splitOn_join some free]

/-- What a line does to a session that goes on. -/
inductive Takes (r : Repl) (line : String) : Repl → Prop
  | skipped : r.pending = [] → isBlankLine line → Takes r line r
  | pending : ¬(r.pending = [] ∧ isBlankLine line) →
      Lexical.isComplete (joined (r.pending ++ [line])).toList = false →
      Takes r line { r with pending := r.pending ++ [line] }
  | evaluated : ¬(r.pending = [] ∧ isBlankLine line) →
      Lexical.isComplete (joined (r.pending ++ [line])).toList = true →
      Takes r line { interpreter := evaluateInput r.interpreter (joined (r.pending ++ [line])) }

theorem handleLine_ends_iff (r : Repl) (line : String) :
    (r.handleLine line).1 = false ↔ r.pending = [] ∧ isFarewell line := by
  unfold handleLine
  split
  · next ends => simpa using ends
  · next goesOn =>
    have goesOn : ¬(r.pending = [] ∧ isFarewell line = true) := by simpa using goesOn
    split
    · simpa using goesOn
    · dsimp only
      split
      · simpa using goesOn
      · simpa using goesOn

theorem takes_of_handleLine {r t : Repl} {line : String} (h : r.handleLine line = (true, t)) :
    r.Takes line t := by
  unfold handleLine at h
  split at h
  · cases h
  · split at h
    · next blank =>
      cases h
      have blank : r.pending = [] ∧ isBlankLine line = true := by simpa using blank
      exact .skipped blank.1 blank.2
    · next kept =>
      have kept : ¬(r.pending = [] ∧ isBlankLine line = true) := by simpa using kept
      dsimp only at h
      split at h
      · next complete =>
        rw [← (Prod.mk.inj h).2]
        exact .evaluated kept complete
      · next unfinished =>
        rw [← (Prod.mk.inj h).2]
        exact .pending kept (Bool.eq_false_iff.mpr unfinished)

/-! ## Any number of lines -/

/-- Takes lines as long as the session goes on; nothing is left of it once it has ended. -/
def feed (r : Repl) : List String → Option Repl
  | [] => some r
  | line :: lines =>
    match r.handleLine line with
    | (true, r) => r.feed lines
    | (false, _) => none

/-- The lines that a session does not pass over: all but those that are blank while nothing is
pending. -/
def kept (r : Repl) : List String → List String
  | [] => []
  | line :: lines =>
    if r.pending.isEmpty && isBlankLine line then (r.handleLine line).2.kept lines
    else line :: (r.handleLine line).2.kept lines

/-- No line of these completes an input that begins with the first. -/
def Unfinished (lines : List String) : Prop :=
  ∀ front, front ≠ [] → front <+: lines → Lexical.isComplete (joined front).toList = false

/-- The last line of these, and no earlier one, completes an input that begins with the first. -/
structure Finished (lines : List String) : Prop where
  some : lines ≠ []
  complete : Lexical.isComplete (joined lines).toList = true
  first : Unfinished lines.dropLast

theorem unfinished_nil : Unfinished [] :=
  fun _ some before => absurd (List.prefix_nil.mp before) some

theorem Unfinished.append {lines : List String} {line : String} (h : Unfinished lines)
    (unfinished : Lexical.isComplete (joined (lines ++ [line])).toList = false) :
    Unfinished (lines ++ [line]) := by
  intro front some before
  rcases List.prefix_concat_iff.mp before with rfl | before
  · exact unfinished
  · exact h front some before

/-- The lines that were kept between two moments of a session: they, behind the lines that were
pending, are the `inputs` that were completed since, each evaluated once, and the lines that are
pending now. -/
structure Keeps (r : Repl) (lines : List String) (inputs : List (List String)) (t : Repl) : Prop where
  order : r.pending ++ lines = inputs.flatten ++ t.pending
  typed : t.interpreter.typed ++ t.pending = r.interpreter.typed ++ r.pending ++ lines
  finished : ∀ input ∈ inputs, Finished input
  unfinished : Unfinished t.pending
  evaluated : t.interpreter =
    inputs.foldl (fun i input => evaluateInput i (joined input)) r.interpreter

variable {r t : Repl} {line : String} {lines : List String} {inputs : List (List String)}

theorem Keeps.of_pending (h : { r with pending := r.pending ++ [line] }.Keeps lines inputs t) :
    r.Keeps (line :: lines) inputs t where
  order := by simpa using h.order
  typed := by simpa using h.typed
  finished := h.finished
  unfinished := h.unfinished
  evaluated := h.evaluated

theorem Keeps.of_evaluated (unfinished : Unfinished r.pending)
    (free : ∀ l ∈ r.pending ++ [line], '\n' ∉ l.toList)
    (complete : Lexical.isComplete (joined (r.pending ++ [line])).toList = true)
    (h : Keeps { interpreter := evaluateInput r.interpreter (joined (r.pending ++ [line])) } lines
      inputs t) : r.Keeps (line :: lines) ((r.pending ++ [line]) :: inputs) t where
  order := by simpa using h.order
  typed := by
    have typed := h.typed
    rw [typed_evaluateInput _ (by simp) free] at typed
    simpa using typed
  finished := by
    have first : Unfinished (r.pending ++ [line]).dropLast := by rwa [List.dropLast_concat]
    exact List.forall_mem_cons.mpr ⟨⟨by simp, complete, first⟩, h.finished⟩
  unfinished := h.unfinished
  evaluated := by
    have evaluated := h.evaluated
    dsimp only at evaluated
    rw [List.foldl_cons, evaluated]

theorem keeps_feed (fed : r.feed lines = some t) (unfinished : Unfinished r.pending)
    (old : ∀ line ∈ r.pending, '\n' ∉ line.toList) (free : ∀ line ∈ lines, '\n' ∉ line.toList) :
    ∃ inputs, r.Keeps (r.kept lines) inputs t := by
  induction lines generalizing r with
  | nil =>
    cases fed
    exact ⟨[], by simp [kept], by simp [kept], by simp, unfinished, rfl⟩
  | cons line lines ih =>
    obtain ⟨here, later⟩ := List.forall_mem_cons.mp free
    have both : ∀ l ∈ r.pending ++ [line], '\n' ∉ l.toList := by
      simpa [or_imp, forall_and] using ⟨old, here⟩
    rw [feed] at fed
    split at fed
    · next u handled =>
      have next : (r.handleLine line).2 = u := congrArg Prod.snd handled
      rw [kept, next]
      cases takes_of_handleLine handled with
      | skipped clear blank =>
        rw [if_pos (by simp [clear, blank])]
        exact ih fed unfinished old later
      | pending kept incomplete =>
        obtain ⟨inputs, keeps⟩ := ih fed (unfinished.append incomplete) both later
        rw [if_neg (by simpa using kept)]
        exact ⟨inputs, keeps.of_pending⟩
      | evaluated kept complete =>
        obtain ⟨inputs, keeps⟩ := ih fed unfinished_nil (by simp) later
        rw [if_neg (by simpa using kept)]
        exact ⟨_, keeps.of_evaluated unfinished both complete⟩
    · cases fed

theorem prompt_eq_iff (r : Repl) : r.prompt = "... " ↔ r.pending ≠ [] := by
  unfold prompt
  cases r.pending with
  | nil => simp
  | cons => simp

end Repl

/-- A new session loses and repeats no line. -/
theorem typed_lines_kept (i : Interpreter) (lines : List String)
    (free : ∀ line ∈ lines, '\n' ∉ line.toList) (t : Repl)
    (fed : ({ interpreter := i } : Repl).feed lines = some t) :
    t.interpreter.typed ++ t.pending = i.typed ++ ({ interpreter := i } : Repl).kept lines ∧
    (∃ inputs : List (List String),
      ({ interpreter := i } : Repl).kept lines = inputs.flatten ++ t.pending ∧
      (∀ input ∈ inputs, Repl.Finished input) ∧ Repl.Unfinished t.pending ∧
      t.interpreter = inputs.foldl (fun i input => Repl.evaluateInput i (joined input)) i) ∧
    (∀ i input, Repl.Tells (i.evaluateTyped input) input (Repl.evaluateInput i input)) ∧
    (t.prompt = "... " ↔ t.pending ≠ []) ∧
    ∀ line, (t.handleLine line).1 = false ↔ t.pending = [] ∧ Repl.isFarewell line := by
  obtain ⟨inputs, order, typed, finished, unfinished, evaluated⟩ :=
    Repl.keeps_feed fed Repl.unfinished_nil (by simp) free
  refine ⟨?_, ⟨inputs, order, finished, unfinished, evaluated⟩, Repl.tells_evaluateInput,
    t.prompt_eq_iff, t.handleLine_ends_iff⟩
  simpa using typed

/-- A function over three lines with a blank one in it, and a call that fails. -/
theorem typed_lines_kept_function :
    let r : Repl := { interpreter := .new {} false }
    let lines := ["", "function f => \x7b", "", "  return null + 1n", "\x7d", " ", "f!", "[1n,"]
    ∃ t, r.feed lines = some t ∧
      t.interpreter.typed = ["function f => \x7b", "", "  return null + 1n", "\x7d", "f!"] ∧
      t.pending = ["[1n,"] ∧ t.prompt = "... " ∧ (t.handleLine "exit").1 = true := by
  intro r lines
  obtain ⟨t, fed⟩ : ∃ t, r.feed lines = some t := Option.isSome_iff_exists.mp (by decide +kernel)
  have free : ∀ line ∈ lines, '\n' ∉ line.toList := by decide +kernel
  obtain ⟨typed, -, -, prompt, ends⟩ := typed_lines_kept _ lines free t fed
  have pending : (r.feed lines).map (·.pending) = some ["[1n,"] := by decide +kernel
  have kept : r.kept lines =
      ["function f => \x7b", "", "  return null + 1n", "\x7d", "f!"] ++ ["[1n,"] := by decide +kernel
  rw [fed] at pending
  have pending : t.pending = ["[1n,"] := Option.some.inj pending
  refine ⟨t, fed, ?_, pending, prompt.mpr (by simp [pending]), ?_⟩
  · rw [kept, pending, ← List.append_assoc] at typed
    exact List.append_cancel_right typed
  · exact eq_true_of_ne_false (mt (ends "exit").mp (by simp [pending]))

end Gapscript
