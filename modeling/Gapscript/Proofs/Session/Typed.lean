import Gapscript.Proofs.Reading.Plain
import Gapscript.Proofs.Run.Bindings
import Gapscript.Session.Interpreter

/-!
# Typed input

Typed input is evaluated as a single expression if it reads as one without a bare word among its
operands, and runs as statements otherwise. A bare word in an argument, an array, an object or an
accessor is passed over; in a plain line there is none of these, so a plain line with a bare word
anywhere runs as statements.
-/

namespace Gapscript

namespace Interpreter

variable (i : Interpreter) (input : String)

/-- The place where the next typed line begins. -/
def typedStart : Position := { line := i.typed.length + 1, file := typedSource }

/-- The interpreter after a line was typed and before it is run. -/
def typing : Interpreter :=
  { i with
    typed := i.typed ++ input.splitOn "\n"
    state := { i.state with line := i.typedStart.line } }

/-- The part of a typed line that may be an expression. -/
def typedText : Cursor := ⟨Text.dropEnd isTrailing input.toList, i.typedStart⟩

/-- The typed line reads as an expression. -/
def ReadsAs (e : Expr) : Prop :=
  Reading.outcome (fullExpression (i.typing input).state.names (i.typedText input)) = .ok e

/-- The answer to a typed line that is evaluated as an expression. -/
def answerExpression (e : Expr) : Outcome × Interpreter :=
  (i.typing input).evaluating do
    Run.debug .repl "evaluating input as an expression"
    Run.locate (some i.typedStart) (runExpression ((i.typing input).host false) e)

/-- The answer to a typed line that is run as statements. -/
def answerStatements : Outcome × Interpreter := (i.typing input).typedStatements input i.typedStart

/-- The answer to a typed line, given how it reads as an expression. -/
def answerTyped : Except Error Expr → Outcome × Interpreter
  | .ok e => if e.hasImplicit then i.answerStatements input else i.answerExpression input e
  | .error _ => i.answerStatements input

theorem evaluateTyped_eq : i.evaluateTyped input = i.answerTyped input
    (Reading.outcome (fullExpression (i.typing input).state.names (i.typedText input))) := rfl

variable {i input} {e : Expr}

theorem evaluateTyped_of_readsAs (read : i.ReadsAs input e) :
    i.evaluateTyped input = if e.hasImplicit then i.answerStatements input else i.answerExpression input e := by
  rw [evaluateTyped_eq, read]
  rfl

theorem evaluateTyped_of_not_readsAs (unread : ∀ e, ¬ i.ReadsAs input e) :
    i.evaluateTyped input = i.answerStatements input := by
  rw [evaluateTyped_eq]
  cases h : Reading.outcome (fullExpression (i.typing input).state.names (i.typedText input)) with
  | ok e => exact absurd h (unread e)
  | error _ => rfl

theorem evaluateTyped_of_bare (bare : ∀ e, i.ReadsAs input e → e.hasImplicit = true) :
    i.evaluateTyped input = i.answerStatements input := by
  by_cases read : ∃ e, i.ReadsAs input e
  · obtain ⟨e, read⟩ := read
    rw [evaluateTyped_of_readsAs read, if_pos (bare e read)]
  · exact evaluateTyped_of_not_readsAs fun e he => read ⟨e, he⟩

theorem exists_readsAs_of_any {P : Expr → Bool} (found : (Reading.outcome
      (fullExpression (i.typing input).state.names (i.typedText input))).toOption.any P = true) :
    ∃ e, i.ReadsAs input e ∧ P e = true := by
  obtain ⟨e, read, holds⟩ := (Option.any_eq_true _ _).1 found
  cases h : Reading.outcome (fullExpression (i.typing input).state.names (i.typedText input)) with
  | ok e' =>
    rw [h] at read
    cases read
    exact ⟨_, h, holds⟩
  | error _ =>
    rw [h] at read
    cases read

theorem ReadsAs.plain (read : i.ReadsAs input e)
    (plain : (i.typing input).state.names.PlainText (i.typedText input)) : e.Plain := by
  unfold ReadsAs Reading.outcome at read
  split at read
  · next run =>
    cases read
    exact plain_fullExpression plain _ _ _ run
  · cases read

end Interpreter

/-- Typed input is evaluated as an expression unless a bare word is among its operands. -/
theorem typed_input_decided (i : Interpreter) (input : String) :
    (∀ e, i.ReadsAs input e →
      (∀ ps a, e.Contains ps a → a.Bare → ∃ p ∈ ps, p ≠ .operand) →
      i.evaluateTyped input = i.answerExpression input e) ∧
    ((∀ e, i.ReadsAs input e → ∃ ps a, e.Contains ps a ∧ a.Bare ∧ ∀ p ∈ ps, p = .operand) →
      i.evaluateTyped input = i.answerStatements input) ∧
    ((i.typing input).state.names.PlainText (i.typedText input) →
      (∀ e, i.ReadsAs input e → ∃ ps a, e.Contains ps a ∧ a.Bare) →
      i.evaluateTyped input = i.answerStatements input) := by
  refine ⟨fun e read hidden => ?_, fun bare => ?_, fun plain bare => ?_⟩
  · have unseen : ¬ e.hasImplicit = true := by
      rw [hasImplicit_iff]
      rintro ⟨ps, a, inside, bare, operands⟩
      obtain ⟨p, hp, other⟩ := hidden ps a inside bare
      exact other (operands p hp)
    rw [Interpreter.evaluateTyped_of_readsAs read, if_neg unseen]
  · exact Interpreter.evaluateTyped_of_bare fun e read => (hasImplicit_iff e).2 (bare e read)
  · refine Interpreter.evaluateTyped_of_bare fun e read => (hasImplicit_iff e).2 ?_
    obtain ⟨ps, a, inside, word⟩ := bare e read
    exact ⟨ps, a, inside, word, inside.operands (read.plain plain)⟩

/-- An assignment to a word that nothing is bound to is plain and has a bare word, so it runs as
statements. -/
theorem typed_input_decided_assignment :
    let i := Interpreter.new {} false
    (i.typing "x = 5n").state.names.PlainText (i.typedText "x = 5n") ∧
      (∃ e, i.ReadsAs "x = 5n" e) ∧ i.evaluateTyped "x = 5n" = i.answerStatements "x = 5n" := by
  intro i
  have global : ∃ funcs, (i.typing "x = 5n").state.frames = [⟨[], funcs⟩] ∧
      ∀ fn ∈ funcs, ¬ fn.code.name.toList <:+: (i.typedText "x = 5n").rest := ⟨_, rfl, by decide +kernel⟩
  have plain : (i.typing "x = 5n").state.names.PlainText (i.typedText "x = 5n") := by
    refine ⟨by decide +kernel, by decide +kernel, fun {d e name fn} reached named callee => ?_⟩
    obtain ⟨funcs, frames, unmentioned⟩ := global
    change State.callableIn _ true name _ = some fn at callee
    rw [frames, State.callableIn] at callee
    change ((funcs.find? fun f => f.code.name = name).orElse fun _ => none) = some fn at callee
    have bound : funcs.find? (fun f => f.code.name = name) = some fn := by
      cases h : funcs.find? (fun f => f.code.name = name) with
      | none => rw [h] at callee; cases callee
      | some f => rw [h] at callee; exact callee
    have same : fn.code.name = name := by simpa using List.find?_some bound
    have mentioned := reached.includes.mentions (mentions_bindingName named)
    exact absurd (same ▸ mentioned) (unmentioned fn (List.mem_of_find?_eq_some bound))
  obtain ⟨e, read, bare⟩ : ∃ e, i.ReadsAs "x = 5n" e ∧ e.hasImplicit = true :=
    Interpreter.exists_readsAs_of_any (by decide +kernel)
  refine ⟨plain, ⟨e, read⟩, (typed_input_decided i "x = 5n").2.2 plain fun e' read' => ?_⟩
  cases Except.ok.inj (read'.symm.trans read)
  obtain ⟨ps, a, inside, word, -⟩ := (hasImplicit_iff e).1 bare
  exact ⟨ps, a, inside, word⟩

/-- The argument of a call, if there is one only and it is a bare word. -/
def Expr.bareArgument? : Expr → Option Expr
  | .atom (.call _ _ [.atom (.literal v true) accs pos] _) _ _ => some (.atom (.literal v true) accs pos)
  | _ => none

theorem contains_of_bareArgument? {e a : Expr} (h : e.bareArgument? = some a) :
    e.Contains [.argument] a ∧ a.Bare := by
  unfold Expr.bareArgument? at h
  split at h
  · cases h
    exact ⟨.argument _ _ _ _ _ (List.mem_singleton_self _) (.here _), trivial⟩
  · cases h

/-- An assignment to the name of a function with a parameter has a bare word, and is evaluated as an
expression: it calls the function with the rest of the line, and nothing is bound. -/
theorem bare_argument_evaluated :
    let i := Interpreter.new {} false
    ∃ e, i.ReadsAs "print = 5" e ∧ (∃ a, e.Contains [.argument] a ∧ a.Bare) ∧
      i.evaluateTyped "print = 5" = i.answerExpression "print = 5" e ∧
      (i.evaluateTyped "print = 5").2.state.output = "= 5\n" ∧
      ((i.evaluateTyped "print = 5").2.state.bindingAt 0 "print").isNone := by
  intro i
  obtain ⟨e, read, word⟩ : ∃ e, i.ReadsAs "print = 5" e ∧ (e.bareArgument?.isSome && !e.hasImplicit) = true :=
    Interpreter.exists_readsAs_of_any (by decide +kernel)
  rw [Bool.and_eq_true, Bool.not_eq_true', Option.isSome_iff_exists] at word
  obtain ⟨⟨a, argument⟩, unseen⟩ := word
  refine ⟨e, read, ⟨a, contains_of_bareArgument? argument⟩, ?_, by decide +kernel, by decide +kernel⟩
  rw [Interpreter.evaluateTyped_of_readsAs read, if_neg (by rw [unseen]; decide)]

end Gapscript
