import Gapscript.Proofs.Session.Reachable

/-!
# Every request ends

With a positive limit the room for nested frames shrinks by one with every frame that is entered,
and is given back when the frame is left. Within a frame, evaluation goes down a tree, watches are
looked at one after the other, and each statement leaves less text. So a run that is given as many
levels of frames as its state has room for never runs out of them, and more levels or more
statements change nothing.
-/

namespace Gapscript

/-- A native function that ends, and that neither enters nor leaves frames. -/
def HostFunction.Ends (f : HostFunction) : Prop :=
  f.Obeys State.Balanced State.SameStack fun e => ¬ e.RefusedPop ∧ e ≠ .exhausted

theorem HostFunction.Ends.keepsFrames {f : HostFunction} (h : f.Ends) : f.KeepsFrames :=
  h.mono (fun hs => hs) (fun same => same) fun raised => raised.1

theorem ends_standard {f : HostFunction} (hf : f ∈ Library.standard) : f.Ends := by
  refine Library.obeys_standard hf (fun same => same.sameStack) fun complaint => ?_
  constructor
  · rintro ⟨pos, rfl⟩
    cases complaint
  · rintro rfl
    cases complaint

/-! ## Room for frames -/

namespace State

variable {s t u : State}

/-- A balanced state with a positive limit and room for `n` more frames. -/
structure Within (n : Nat) (s : State) : Prop where
  balanced : s.Balanced
  limited : 0 < s.maxDepth
  room : s.room = n

theorem room_of_limited (h : 0 < s.maxDepth) : s.room = (s.maxDepth - s.depth).toNat := by
  rw [room, if_pos h]

theorem Within.of_sameStack {n : Nat} (hs : s.Within n) (same : s.SameStack t) : t.Within n := by
  have limited : 0 < t.maxDepth := same.limit ▸ hs.limited
  refine ⟨same.balanced hs.balanced, limited, ?_⟩
  rw [room_of_limited limited, same.limit, same.depth, ← room_of_limited hs.limited]
  exact hs.room

/-- Entering a frame takes up some of the room. -/
theorem Within.push {n : Nat} (hs : s.Within (n + 1)) (entered : s.push = .ok u) : u.Within n := by
  have balanced := hs.balanced.push entered
  have room := hs.room
  rw [room_of_limited hs.limited] at room
  obtain ⟨-, rfl⟩ := push_eq_ok entered
  refine ⟨balanced, hs.limited, ?_⟩
  rw [room_of_limited (by exact hs.limited)]
  change (s.maxDepth - ((s.depth + 1 : Nat) : Int)).toNat = n
  omega

/-- Without room no frame is entered. -/
theorem Within.push_ne_ok (hs : s.Within 0) : s.push ≠ .ok u := by
  intro entered
  have room := hs.room
  rw [room_of_limited hs.limited] at room
  obtain ⟨free, -⟩ := push_eq_ok entered
  have := not_and.1 free hs.limited
  omega

end State

/-! ## The contracts -/

namespace Contract

variable {host : Host} (natives : ∀ f ∈ host.functions, f.Ends)

/-- From a state with room for `n` frames, a run keeps the stack and does not run out of
its budgets. -/
def within (n : Nat) : Contract host where
  Pre := State.Within n
  Change := State.SameStack
  Raised e := e ≠ .exhausted
  refl _ := .refl _
  trans := .trans
  stable hs same := hs.of_sameStack same
  step hs h := sameStack_step (fun f hf => (natives f hf).keepsFrames) hs.balanced h
  ordinary h := by
    rintro rfl
    cases h
  located {e} pos h := by
    obtain same | ⟨cause, -, placed⟩ := e.withPosition_cases pos
    · rw [same]
      exact h
    · rw [placed]
      exact fun he => nomatch he
  native hf _ _ _ hs he := ((natives _ hf _ _ hs.balanced).2 _ he).2

/-- The contract for a frame that is never entered. -/
def unentered (k : Contract host) : Contract host where
  Pre _ := False
  Change := k.Change
  Raised := k.Raised
  refl h := h.elim
  trans := k.trans
  stable h _ := h
  step h _ := h.elim
  ordinary := k.ordinary
  located := k.located
  native _ _ _ _ h := h.elim

theorem encloses_unentered : (within natives 0).Encloses (within natives 0).unentered where
  enter hs entered := hs.push_ne_ok entered
  leave hs entered _ := absurd entered hs.push_ne_ok
  raised h := h

theorem encloses_within (n : Nat) : (within natives (n + 1)).Encloses (within natives n) where
  enter hs entered := hs.push entered
  leave {s u v} hs entered inside := by
    obtain ⟨w, left, same⟩ := State.pop_of_push entered inside
    rw [Run.leave, left]
    exact same
  raised h := h

/-- What runs in nested frames does not depend on the number of levels, once it is as large as the
room. -/
theorem nested_within {n m m' : Nat} (h : n ≤ m) (h' : n ≤ m') :
    (within natives n).Nested (innerAt host m) (innerAt host m') := by
  induction n generalizing m m' with
  | zero =>
    refine ⟨_, encloses_unentered natives, ?_⟩
    exact ⟨fun _ _ _ hs => hs.elim, fun _ _ hs => hs.elim⟩
  | succ n ih =>
    obtain ⟨m, rfl⟩ : ∃ l, m = l + 1 := ⟨m - 1, by omega⟩
    obtain ⟨m', rfl⟩ : ∃ l, m' = l + 1 := ⟨m' - 1, by omega⟩
    have deeper := ih (Nat.le_of_succ_le_succ h) (Nat.le_of_succ_le_succ h')
    exact ⟨within natives n, encloses_within natives n, bodies_of_nested deeper⟩

theorem upheld_within (n : Nat) : (within natives n).Upheld :=
  upheld_of_nested fun hs => nested_within natives (Nat.le_of_eq hs.room.symm) (Nat.le_of_eq hs.room.symm)

end Contract

/-! ## Requests -/

namespace Interpreter

theorem Idle.within {Native : HostFunction → Prop} {i : Interpreter} (h : i.Idle Native)
    (limited : 0 < i.settings.maxScopeDepth) (line : Int) (values : Array Value) :
    State.Within i.settings.maxScopeDepth.toNat { i.state with line := line, produced := values } := by
  have positive : 0 < i.state.maxDepth := h.limit.symm ▸ limited
  refine ⟨⟨h.balanced.height, h.balanced.limit⟩, positive, ?_⟩
  rw [State.room_of_limited (by exact positive)]
  change (i.state.maxDepth - (i.state.depth : Int)).toNat = _
  rw [h.depth, h.limit, Int.natCast_zero, Int.sub_zero]

end Interpreter

/-- In every reachable interpreter with a positive limit, every request ends with values or a
failure of the program: no budget of the interpreter runs out, and larger budgets, for nested frames
as for statements and for the parameters of a function, would not change what a source text does. -/
theorem requests_end {i : Interpreter} (hi : i.Reachable HostFunction.Ends)
    (limited : 0 < i.settings.maxScopeDepth) :
    (∀ r, (i.serve r).1.error ≠ some .exhausted) ∧
    (∀ c budget, c.rest.length < budget → paramsFrom budget c = params c) ∧
    ∀ text file levels budget,
      let c := Cursor.start text file
      let start := { i.state with produced := #[] }
      i.settings.maxScopeDepth.toNat ≤ levels → c.rest.length < budget →
      statementLoop (i.host false) (innerAt (i.host false) levels) true budget (hoists c) c start =
        runSource (i.host false) c start := by
  have idle := hi.idle (fun _ ends => ends.keepsFrames) fun f hf => ends_standard hf
  refine ⟨?_, fun c budget longer => paramsFrom_eq longer (Nat.lt_succ_self _), ?_⟩
  · intro r failed
    obtain ⟨_, _, _, -, raised⟩ := Interpreter.answers_serve i
      (fun _ => Contract.within idle.natives i.settings.maxScopeDepth.toNat)
      (fun _ => Contract.upheld_within idle.natives _) (fun _ => idle.within limited) r
    exact raised _ failed rfl
  · intro text file levels budget c start enough longer
    have hs := idle.within limited i.state.line #[]
    have nested : (Contract.within idle.natives _).Nested (innerAt (i.host false) _)
        (innerAt (i.host false) levels) :=
      Contract.nested_within idle.natives (Nat.le_of_eq hs.room.symm) enough
    exact (Contract.agree_statementLoop nested hs true (hoists c) (Nat.lt_succ_self _) longer).1

/-- A function that calls itself and two watches that set off each other both end. -/
theorem requests_end_runaway :
    ∃ i : Interpreter,
      i = (Interpreter.new { maxScopeDepth := 3 } false).register Library.emit ∧
      i.Reachable HostFunction.Ends ∧ 0 < i.settings.maxScopeDepth ∧
      (i.serve (.source "function r => emit(r)!\nr!" "")).1.error ≠ some .exhausted ∧
      (i.serve (.source
        "var var x = 1!\nvar var y = 1!\nwhen x > 0 \x7b y += 1! \x7d\nwhen y > 0 \x7b x += 1! \x7d\nx = 2!"
        "")).1.error ≠ some .exhausted := by
  have emits : HostFunction.Ends Library.emit :=
    fun _ _ _ => ⟨⟨rfl, rfl, rfl⟩, fun _ he => nomatch he⟩
  have reachable := (Interpreter.Reachable.new { maxScopeDepth := 3 } false).register Library.emit emits
  have limited : (0 : Int) < 3 := by decide
  have ends := (requests_end reachable limited).1
  exact ⟨_, rfl, reachable, limited, ends _, ends _⟩
end Gapscript
