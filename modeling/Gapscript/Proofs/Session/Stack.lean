import Gapscript.Proofs.Session.Reachable

/-!
# Every run restores the stack

Whatever an interpreter runs, and whatever it ends with, the stack of frames is as high afterwards
as it was before. On the way its depth counts the frames and stays within the limit, a refused frame
changes nothing, and no request can lead to the global frame being left.
-/

namespace Gapscript

/-- From a state, a run ends at the height it started from, passes through balanced states only, and
does not fail at leaving the global frame. -/
structure Run.Restores (host : Host) {α : Type} (x : Run α) (s : State) : Prop where
  height : (x.reached s).frames.length = s.frames.length
  trail : Trail host State.Balanced s (x.reached s)
  left : ∀ e, x.failure? s = some e → ¬ e.RefusedPop

/-- Everything that runs in a frame restores the stack from a state. -/
structure Restored (host : Host) (inner : Inner) (s : State) : Prop where
  statements : ∀ collect c, Run.Restores host (runStatements host inner collect c) s
  block : ∀ collect body, Run.Restores host (runBlock inner collect body) s
  statement : ∀ collect c, Run.Restores host (runStatement host inner collect c) s
  expression : ∀ e, Run.Restores host (eval host inner e) s
  call : ∀ fn args pos, Run.Restores host (callFunction host inner fn args pos) s
  firing : ∀ i w, Run.Restores host (fireWatch host inner i w) s
  watches : Run.Restores host (checkWatches host inner) s

theorem restores_of_agree {host : Host} {natives : ∀ f ∈ host.functions, f.KeepsFrames} {α : Type}
    {x : Run α} {s : State} (h : (Contract.frames natives).Agree s x x) : x.Restores host s := by
  have trail : Trail host State.Balanced s (x.reached s) := h.2.change
  exact ⟨(trail.sameStack natives).height, trail, fun e he => h.2.raised he⟩

theorem restored_innerAt {host : Host} (natives : ∀ f ∈ host.functions, f.KeepsFrames) (n : Nat)
    {s : State} (hs : s.Balanced) : Restored host (innerAt host n) s := by
  have nested := Contract.nested_frames natives n
  constructor
  · exact fun collect c => restores_of_agree (Contract.agree_runStatements nested hs collect c)
  · exact fun collect body => restores_of_agree (Contract.agree_runBlock nested hs collect body)
  · exact fun collect c => restores_of_agree (Contract.agree_runStatement nested hs collect c)
  · exact fun e => restores_of_agree (Contract.agree_eval nested e hs)
  · exact fun fn args pos => restores_of_agree (Contract.agree_callFunction nested hs fn args pos)
  · exact fun i w => restores_of_agree (Contract.agree_fireWatch nested hs i w)
  · exact restores_of_agree (Contract.agree_checkWatches nested hs)

theorem inFrame_of_refused {s : State} {f : TypeFault} (refused : s.push = .error f) {α : Type}
    (pos : Option Position) (x : Run α) :
    Run.inFrame pos x s = .error ((Error.ofFault f).withPosition pos) s := by
  rw [Run.inFrame, refused]

theorem keepsFrames_standard {f : HostFunction} (hf : f ∈ Library.standard) : f.KeepsFrames := by
  refine Library.obeys_standard hf (fun same => same.sameStack) fun complaint => ?_
  rintro ⟨pos, rfl⟩
  cases complaint

theorem not_refusedPop_serve {i : Interpreter} (hi : i.Reachable HostFunction.KeepsFrames) {r : Request}
    {e : Error} (failed : (i.serve r).1.error = some e) : ¬ e.RefusedPop := by
  have idle := hi.idle (fun _ keeps => keeps) fun f hf => keepsFrames_standard hf
  obtain ⟨_, _, _, _, -, unrefused⟩ := idle.answers (fun _ keeps => keeps) r
  exact unrefused e failed

/-- In every reachable interpreter, all that runs restores the stack, and no request ends with the
global frame being left. -/
theorem frames_restored {i : Interpreter} (hi : i.Reachable HostFunction.KeepsFrames) :
    (i.state.Balanced ∧ i.state.depth = 0 ∧ i.state.maxDepth = i.settings.maxScopeDepth) ∧
    (∀ endCloses n s, s.Balanced →
      Restored (i.host endCloses) (innerAt (i.host endCloses) n) s) ∧
    (∀ s f, s.Balanced → s.push = .error f → (s.depth : Int) = s.maxDepth ∧
      ∀ (α : Type) (pos : Option Position) (x : Run α),
        Run.inFrame pos x s = .error ((Error.ofFault f).withPosition pos) s) ∧
    ∀ r e, (i.serve r).1.error = some e → ¬ e.RefusedPop := by
  have idle := hi.idle (fun _ keeps => keeps) fun f hf => keepsFrames_standard hf
  refine ⟨⟨idle.balanced, idle.depth, idle.limit⟩, ?_, ?_, ?_⟩
  · intro endCloses n s hs
    exact restored_innerAt idle.natives n hs
  · intro s f hs refused
    refine ⟨(hs.depth_of_refused refused).2, ?_⟩
    intro α pos x
    exact inFrame_of_refused refused pos x
  · exact fun r e failed => not_refusedPop_serve hi failed

/-- A program that runs into the limit leaves the global frame alone on the stack. -/
theorem frames_restored_overrun :
    ∃ i : Interpreter,
      i = (((Interpreter.new { maxScopeDepth := 3 } false).register Library.emit).serve
        (.source "function r => emit(r)!\nr!" "")).2 ∧
      i.Reachable HostFunction.KeepsFrames ∧ i.state.frames.length = 1 ∧
      ∀ r e, (i.serve r).1.error = some e → ¬ e.RefusedPop := by
  have emits : HostFunction.KeepsFrames Library.emit :=
    fun _ _ _ => ⟨⟨rfl, rfl, rfl⟩, fun _ he => nomatch he⟩
  have reachable := ((Interpreter.Reachable.new { maxScopeDepth := 3 } false).register Library.emit emits).serve
    (.source "function r => emit(r)!\nr!" "")
  obtain ⟨⟨balanced, depth, -⟩, -, -, served⟩ := frames_restored reachable
  refine ⟨_, rfl, reachable, ?_, served⟩
  rw [balanced.height, depth]

end Gapscript
