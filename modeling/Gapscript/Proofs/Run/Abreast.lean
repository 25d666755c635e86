import Gapscript.Proofs.Run.Beside

/-!
# Two runs abreast

`B.Abreast k s s' f Q x y` is the judgment about two runs from states beside each other, `k` frames
deep. If the first one fails with something excused, nothing is said of the second.
Otherwise both end alike: with a result that `Q` holds of and the same mapped by `f`, in states beside
each other again, or with a failure and the same shifted. The rules follow the combinators that runs
are built from.
-/

namespace Gapscript

open Cursor Reading

namespace Bridge

/-- The second run does what the first one does, shifted. -/
inductive Abreast {α β : Type} (B : Bridge) (k : Nat) (s s' : State) (f : α → β) (Q : α → Prop) (x : Run α)
    (y : Run β) : Prop
  | ok (a : α) (t t' : State) (run : x s = .ok a t) (run' : y s' = .ok (f a) t') (beside : B.Beside k t t')
    (holds : Q a)
  | error (e : Error) (t t' : State) (run : x s = .error e t) (run' : y s' = .error (B.shift.error e) t')
    (beside : B.Beside k t t')
  | excused (e : Error) (t : State) (run : x s = .error e t) (tall : B.Tall k t) (excused : B.Excused e)

variable {B : Bridge} {k : Nat} {s s' t t' : State} {α α' β β' : Type} {f : α → α'} {g : β → β'} {P Q : α → Prop}
  {R : β → Prop}

/-! ## Rules -/

theorem abreast_pure (hs : B.Beside k s s') {a : α} {a' : α'} (same : a' = f a) (h : Q a) :
    B.Abreast k s s' f Q (pure a) (pure a') := by
  subst same
  exact .ok a s s' rfl rfl hs h

theorem abreast_throw (hs : B.Beside k s s') {e e' : Error} (same : e' = B.shift.error e) :
    B.Abreast k s s' f Q (throw e) (throw e') := by
  subst same
  exact .error e s s' rfl rfl hs

theorem abreast_modifyGet {x : State → α × State} {y : State → α' × State}
    (same : (y s').1 = f (x s).1) (beside : B.Beside k (x s).2 (y s').2) (h : Q (x s).1) :
    B.Abreast k s s' f Q (modifyGet x) (modifyGet y) := by
  have run {β : Type} (z : State → β × State) (t : State) :
      (modifyGet z : Run β) t = .ok (z t).1 (z t).2 := rfl
  exact .ok (x s).1 (x s).2 (y s').2 (run x s) (by rw [run, same]) beside h

theorem abreast_modify {x y : State → State} (beside : B.Beside k (x s) (y s')) :
    B.Abreast k s s' id (fun _ => True) (modify x : Run PUnit) (modify y) :=
  abreast_modifyGet rfl beside trivial

theorem Abreast.congr {x x' : Run α} {y y' : Run α'} (h : B.Abreast k t t' f Q x y) (hx : x' s = x t)
    (hy : y' s' = y t') : B.Abreast k s s' f Q x' y' := by
  cases h with
  | ok a u u' run run' beside holds => exact .ok a u u' (hx.trans run) (hy.trans run') beside holds
  | error e u u' run run' beside => exact .error e u u' (hx.trans run) (hy.trans run') beside
  | excused e u run tall excused => exact .excused e u (hx.trans run) tall excused

theorem Abreast.get_bind {x : State → Run β} {y : State → Run β'} (h : B.Abreast k s s' g R (x s) (y s')) :
    B.Abreast k s s' g R (get >>= x) (get >>= y) := h.congr rfl rfl

theorem abreast_ite {c : Prop} [Decidable c] {x x' : Run α} {y y' : Run α'}
    (hx : c → B.Abreast k s s' f Q x y) (hx' : ¬ c → B.Abreast k s s' f Q x' y') :
    B.Abreast k s s' f Q (if c then x else x') (if c then y else y') := by
  split
  · next h => exact hx h
  · next h => exact hx' h

/-- Two runs in sequence; the second starts from what the first ended with. -/
theorem Abreast.bind {x : Run α} {y : Run α'} {h : α → Run β} {h' : α' → Run β'}
    (hx : B.Abreast k s s' f P x y)
    (next : ∀ a t t', P a → B.Beside k t t' → B.Abreast k t t' g R (h a) (h' (f a))) :
    B.Abreast k s s' g R (x >>= h) (y >>= h') := by
  cases hx with
  | excused e t run tall excused => exact .excused e t (Run.bind_of_error run) tall excused
  | error e t t' run run' beside =>
    exact .error e t t' (Run.bind_of_error run) (Run.bind_of_error run') beside
  | ok a t t' run run' beside holds =>
    exact (next a t t' holds beside).congr (Run.bind_of_ok run) (Run.bind_of_ok run')

theorem error_withPosition (d : Shift) (e : Error) (pos : Option Position) :
    d.error (e.withPosition pos) = (d.error e).withPosition (pos.map d.position) := by
  cases e with
  | runtime e =>
    obtain ⟨cause, _ | place⟩ := e
    · rfl
    · rfl
  | mismatch e | unparsable e | exhausted => rfl

theorem Abreast.locate {x : Run α} {y : Run α'} (h : B.Abreast k s s' f Q x y) {pos pos' : Option Position}
    (same : pos' = pos.map B.shift.position) :
    B.Abreast k s s' f Q (Run.locate pos x) (Run.locate pos' y) := by
  cases h with
  | ok a t t' run run' beside holds =>
    exact .ok a t t' (by rw [Run.locate, run]) (by rw [Run.locate, run']) beside holds
  | error e t t' run run' beside =>
    refine .error (e.withPosition pos) t t' (by rw [Run.locate, run]) ?_ beside
    rw [Run.locate, run', same, error_withPosition]
  | excused e t run tall excused =>
    exact .excused (e.withPosition pos) t (by rw [Run.locate, run]) tall (B.located pos excused)

theorem Abreast.always {x : Run α} {y : Run α'} (h : B.Abreast k s s' f Q x y)
    {cleanup cleanup' : State → State}
    (clean : ∀ t t', B.Beside k t t' → B.Beside k (cleanup t) (cleanup' t'))
    (tall : ∀ t, B.Tall k t → B.Tall k (cleanup t)) :
    B.Abreast k s s' f Q (Run.always cleanup x) (Run.always cleanup' y) := by
  cases h with
  | ok a t t' run run' beside holds =>
    exact .ok a _ _ (by rw [Run.always, run]) (by rw [Run.always, run']) (clean t t' beside) holds
  | error e t t' run run' beside =>
    exact .error e _ _ (by rw [Run.always, run]) (by rw [Run.always, run']) (clean t t' beside)
  | excused e t run high excused => exact .excused e _ (by rw [Run.always, run]) (tall t high) excused

theorem abreast_ofFault (hs : B.Beside k s s') {r : Except TypeFault α} {r' : Except TypeFault α'}
    (same : r' = r.map f) (h : ∀ a, r = .ok a → Q a) :
    B.Abreast k s s' f Q (Run.ofFault r) (Run.ofFault r') := by
  subst same
  cases r with
  | ok a => exact abreast_pure hs rfl (h a rfl)
  | error fault => exact abreast_throw hs rfl

/-- What is read from the text is read shifted. -/
theorem abreast_read (hs : B.Beside k s s') {p : Names → Reading α} {q : Names → Reading α'}
    (shifted : B.shift.Shifted f (p s.names) (q (B.shift.names s.names)))
    (gives : (p s.names).Gives Q) : B.Abreast k s s' f Q (Run.read p) (Run.read q) := by
  have outcome := shifted.outcome
  rw [← hs.names] at outcome
  cases hr : Reading.outcome (p s.names) with
  | ok a =>
    rw [hr] at outcome
    refine .ok a s s' ?_ ?_ hs (gives.of_outcome_ok hr)
    · rw [Run.read, hr]
    · rw [Run.read, outcome]
  | error e =>
    rw [hr] at outcome
    refine .error e.settled s s' ?_ ?_ hs
    · rw [Run.read, hr]
    · rw [Run.read, outcome]
      exact congrArg (EStateM.Result.error · s') (Shift.settled_error e)

/-! ## Records -/

theorem abreast_log (hs : B.Beside k s s') (level : Level) (category : Category) {message message' : String}
    (said : B.shift.Said message message') :
    B.Abreast k s s' id (fun _ => True) (Run.log level category message) (Run.log level category message') :=
  abreast_modify (hs.record ⟨rfl, rfl, said, rfl, rfl⟩)

theorem abreast_debug (hs : B.Beside k s s') (category : Category) {message message' : String}
    (said : B.shift.Said message message') :
    B.Abreast k s s' id (fun _ => True) (Run.debug category message) (Run.debug category message') :=
  abreast_log hs .debug category said

theorem abreast_display (hs : B.Beside k s s') (v : Value) :
    B.Abreast k s s' id (fun _ => True) (Run.display v) (Run.display (B.shift.value v)) := by
  refine .ok (s.heap.display v) s s' rfl ?_ hs trivial
  change EStateM.Result.ok (s'.heap.display (B.shift.value v)) s' = _
  rw [hs.heap, Shift.display_heap]
  rfl

/-! ## Frames -/

theorem Abreast.inFrame (hs : B.Beside k s s') {pos pos' : Option Position}
    (place : pos' = pos.map B.shift.position) {x : Run α} {y : Run α'}
    (body : B.Deep (k + 1) → ∀ u u', B.Beside (k + 1) u u' → B.Abreast (k + 1) u u' f Q x y) :
    B.Abreast k s s' f Q (Run.inFrame pos x) (Run.inFrame pos' y) := by
  rcases hs.push with ⟨u, u', entered, entered', beside, deep⟩ | ⟨limit, refused, same | excused⟩
  · have leave {v t : State} (left : v.pop? = some t) : Run.leave v = .ok () t := by
      rw [Run.leave, left]
    cases body deep u u' beside with
    | ok a v v' run run' beside holds =>
      obtain ⟨t, t', left, left', beside⟩ := beside.pop hs.above
      refine .ok a t t' ?_ ?_ beside holds
      · rw [Run.inFrame, entered]
        dsimp only
        rw [run]
        exact Run.bind_of_ok (leave left)
      · rw [Run.inFrame, entered']
        dsimp only
        rw [run']
        exact Run.bind_of_ok (leave left')
    | error e v v' run run' beside =>
      obtain ⟨t, t', left, left', beside⟩ := beside.pop hs.above
      refine .error e t t' ?_ ?_ beside
      · rw [Run.inFrame, entered]
        dsimp only
        rw [run]
        exact Run.bind_of_ok (leave left)
      · rw [Run.inFrame, entered']
        dsimp only
        rw [run']
        exact Run.bind_of_ok (leave left')
    | excused e v run tall excused =>
      obtain ⟨t, left, tall⟩ := tall.pop hs.above
      refine .excused e t ?_ tall excused
      rw [Run.inFrame, entered]
      dsimp only
      rw [run]
      exact Run.bind_of_ok (leave left)
  · refine .error ((Error.ofFault (.callDepth limit)).withPosition pos) s s' ?_ ?_ hs
    · rw [Run.inFrame, refused]
    · rw [Run.inFrame, same, place, error_withPosition]
      rfl
  · refine .excused ((Error.ofFault (.callDepth limit)).withPosition pos) s ?_ hs.toTall (B.located pos excused)
    rw [Run.inFrame, refused]

end Bridge

end Gapscript
