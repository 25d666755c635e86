import Gapscript.Session.Library

/-!
# What the standard library does

Each function of the standard library has an equation for what it ends with and the state that it leaves behind.
All of them either reply and change at most what lies outside of the program, or complain at the place of the
call and change nothing (`answers_standard`).
-/

namespace Gapscript

/-- The state after so many nanoseconds. Only a ticking clock moves. -/
def State.waited (s : State) (duration : Int) : State :=
  if s.ticking then { s with now := s.now + duration } else s

/-- At most the output, the records, the clock and the count of identities differ. -/
def State.SameProgram (s t : State) : Prop :=
  ∃ output records now identities,
    t = { s with output := output, records := records, now := now, identities := identities }

theorem State.sameProgram_waited (s : State) (duration : Int) : s.SameProgram (s.waited duration) := by
  unfold waited
  split
  · exact ⟨_, _, _, _, rfl⟩
  · exact ⟨_, _, _, _, rfl⟩

theorem State.SameProgram.refl (s : State) : s.SameProgram s := ⟨_, _, _, _, rfl⟩

theorem State.SameProgram.trans {s t u : State} (h : s.SameProgram t) (h' : t.SameProgram u) : s.SameProgram u := by
  obtain ⟨_, _, _, _, rfl⟩ := h
  obtain ⟨_, _, _, _, rfl⟩ := h'
  exact ⟨_, _, _, _, rfl⟩

namespace Library

/-- What functions of the standard library give back. -/
inductive Reply : Value → Prop
  | undefined : Reply .undefined
  | string (text : String) : Reply (.string text)
  | symbol (sym : Symbol) : Reply (.symbol sym)

/-- What functions of the standard library fail with. -/
inductive Complaint : Error → Prop
  | assertion (detail : String) (pos : Option Position) : Complaint (.runtime ⟨.assertion detail, pos⟩)
  | fault (f : TypeFault) (pos : Option Position) : Complaint (.runtime ⟨.type f, pos⟩)

/-- The arguments that no wait can be as long as. -/
def Unwaitable (call : Invocation) : Prop := (call.first.toNumber.isNaN || call.first.toNumber < 0) = true

section Functions

variable {call : Invocation} {s : State}

theorem print_handler : print.handler call s =
    .ok .undefined (s.write (s.heap.display call.first ++ "\n")) := rfl

theorem assert_handler_of_true (holds : call.first.toBoolean = true) :
    assert.handler call s = .ok .undefined s := by
  simp only [assert, holds]
  rfl

theorem assert_handler_of_false (fails : call.first.toBoolean = false) :
    assert.handler call s = .error (.runtime ⟨.assertion (s.heap.describe call.first), call.pos⟩) s := by
  simp only [assert, fails]
  rfl

theorem typeof_handler : typeof.handler call s = .ok (.string call.first.typeName) s := rfl

theorem sleep_handler_of_unwaitable (invalid : Unwaitable call) :
    sleep.handler call s = .error (call.fault ("sleep: invalid duration " ++ s.heap.display call.first)) s := by
  unfold Unwaitable at invalid
  simp only [sleep, invalid]
  rfl

theorem sleep_handler_of_not_unwaitable (valid : ¬ Unwaitable call) :
    sleep.handler call s =
      .ok .undefined
        ((s.record
          { level := .debug, category := .stdlib
            message := "sleeping " ++ Number.write Number.duration call.first.toNumber ++ "ms" }).waited
          (LifeTime.nanoseconds (call.first.toNumber / 1000))) := by
  unfold Unwaitable at valid
  simp only [sleep, valid]
  rfl

theorem symbol_handler : symbol.handler call s =
    .ok (.symbol (s.newSymbol (s.heap.display call.first)).1) (s.newSymbol (s.heap.display call.first)).2 := rfl

end Functions

/-- The run ends with a reply, or with a complaint at the place of the call. -/
inductive Answers (call : Invocation) (s : State) (x : Run Value) : Prop
  | value {v : Value} {t : State} (run : x s = .ok v t) (reply : Reply v) (same : s.SameProgram t)
  | complaint {e : Error} (run : x s = .error e s) (complaint : Complaint e) (place : e.pos? = call.pos)

theorem answers_standard {f : HostFunction} (hf : f ∈ standard) (call : Invocation) (s : State) :
    Answers call s (f.handler call) := by
  simp only [standard, List.mem_cons, List.not_mem_nil, or_false] at hf
  rcases hf with rfl | rfl | rfl | rfl | rfl
  · exact .value print_handler .undefined ⟨_, _, _, _, rfl⟩
  · cases holds : call.first.toBoolean with
    | true => exact .value (assert_handler_of_true holds) .undefined ⟨_, _, _, _, rfl⟩
    | false => exact .complaint (assert_handler_of_false holds) (.assertion _ _) rfl
  · exact .value typeof_handler (.string _) ⟨_, _, _, _, rfl⟩
  · by_cases invalid : Unwaitable call
    · exact .complaint (sleep_handler_of_unwaitable invalid) (.fault _ _) rfl
    · refine .value (sleep_handler_of_not_unwaitable invalid) .undefined ?_
      exact State.SameProgram.trans ⟨_, _, _, _, rfl⟩ (State.sameProgram_waited _ _)
  · exact .value symbol_handler (.symbol _) ⟨_, _, _, _, rfl⟩

end Library

end Gapscript
