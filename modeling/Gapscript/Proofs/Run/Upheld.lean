import Gapscript.Proofs.Run.Tracked

/-!
# Everything that runs upholds a contract

A contract is a course over every line, and one under which nothing is stopped: whatever the
interpreter runs in a frame agrees under a contract `k` as soon as the bodies of the frames it enters
agree under a contract that `k` encloses.
-/

namespace Gapscript

namespace Pact

variable {host : Host} {α β : Type} {k : Pact host} {s : State}

theorem Agree.congr {x x' y y' : Run α} (h : k.Agree s x y) (hx : x' s = x s) (hy : y' s = y s) :
    k.Agree s x' y' := by
  unfold Agree
  rw [hx, hy]
  exact h

theorem Agree.bind (hs : k.Pre s) {x y : Run α} {f g : α → Run β} (hx : k.Agree s x y)
    (hf : ∀ a t, k.Pre t → k.Agree t (f a) (g a)) : k.Agree s (x >>= f) (y >>= g) :=
  (hx.tracks.bind hs fun a t ht => (hf a t ht).tracks).agree

theorem Agree.locate {x y : Run α} (pos : Option Position) (h : k.Agree s x y) :
    k.Agree s (Run.locate pos x) (Run.locate pos y) :=
  (h.tracks.locate pos).agree

end Pact

namespace Contract

open Pact

variable {host : Host} {inner inner' : Inner} {s : State}

section Passive

variable {k : Pact host}

theorem agree_pure {α : Type} (hs : k.Pre s) (a : α) : k.Agree s (pure a) (pure a) :=
  (tracks_pure hs a).agree

theorem agree_debug (hs : k.Pre s) (category : Category) (message : String) :
    k.Agree s (Run.debug category message) (Run.debug category message) :=
  (tracks_debug hs category message).agree

variable (nested : k.Nested inner inner')

include nested

theorem agree_callFunction (hs : k.Pre s) (fn : FunctionRef) (args : List Value) (pos : Option Position) :
    k.Agree s (callFunction host inner fn args pos) (callFunction host inner' fn args pos) :=
  (Course.tracks_callFunction nested.nests hs fn args pos).agree

theorem agree_eval (e : Expr) {s : State} (hs : k.Pre s) :
    k.Agree s (eval host inner e) (eval host inner' e) :=
  (Course.tracks_eval nested.nests e hs).agree

theorem agree_runBlock (hs : k.Pre s) (collect : Bool) (body : Cursor) :
    k.Agree s (runBlock inner collect body) (runBlock inner' collect body) :=
  (Course.tracks_runBlock nested.nests hs collect body).agree

theorem agree_runBranches (hs : k.Pre s) (collect : Bool) (bs : List Branch) :
    k.Agree s (runBranches host inner collect bs) (runBranches host inner' collect bs) :=
  (Course.tracks_runBranches nested.nests hs collect bs).agree

theorem agree_fireWatch (hs : k.Pre s) (i : Nat) (w : Watch) :
    k.Agree s (fireWatch host inner i w) (fireWatch host inner' i w) :=
  (Course.tracks_fireWatch nested.nests hs i w).agree

theorem agree_checkWatches (hs : k.Pre s) :
    k.Agree s (checkWatches host inner) (checkWatches host inner') :=
  (Course.tracks_checkWatches nested.nests hs).agree

end Passive

variable {k : Contract host}

theorem admits_toCourse (c : Cursor) : k.toCourse.Admits host.endCloses c := ⟨trivial, fun _ => rfl⟩

theorem passable_toCourse (c : Cursor) : k.toCourse.Passable host.endCloses c :=
  Course.passable_of_reaches fun d _ => admits_toCourse d

/-- A statement that was run leaves less text than it started with. -/
theorem passes_runStatement {collect : Bool} {c d : Cursor} {flow : Flow} {t : State}
    (h : runStatement host inner collect c s = .ok (flow, d) t) : c.Passes d := by
  obtain ⟨names, stmt, read⟩ := Course.read_of_runStatement h
  exact passes_statement read

section Statements

variable (nested : k.Nested inner inner')

include nested

theorem nests_toCourse : k.toCourse.Nests False inner inner' := nested.nests

theorem agree_perform (hs : k.Pre s) (collect : Bool) (line : Int) (stmt : Statement) :
    k.Agree s (perform host inner collect line stmt) (perform host inner' collect line stmt) :=
  (Course.tracks_perform (nests_toCourse nested) hs collect line stmt).agree

theorem agree_runStatement (hs : k.Pre s) (collect : Bool) (c : Cursor) :
    k.Agree s (runStatement host inner collect c) (runStatement host inner' collect c) :=
  (Course.tracks_runStatement (nests_toCourse nested) hs collect (admits_toCourse c)).agree

theorem agree_bindHoists (hs : k.Pre s) (line : Int) (hoists : List Hoist) :
    k.Agree s (bindHoists host inner line hoists) (bindHoists host inner' line hoists) :=
  (Course.tracks_bindHoists (nests_toCourse nested) hs line hoists).agree

/-- The statement loop does the same with any two budgets that are larger than the text. -/
theorem agree_statementLoop (hs : k.Pre s) (collect : Bool) {fuel fuel' : Nat} (hoists : List Hoist)
    {c : Cursor} (hfuel : c.rest.length < fuel) (hfuel' : c.rest.length < fuel') :
    k.Agree s (statementLoop host inner collect fuel hoists c)
      (statementLoop host inner' collect fuel' hoists c) :=
  (Course.tracks_statementLoop (nests_toCourse nested) hs collect hoists (passable_toCourse c) hfuel
    hfuel').agree

theorem agree_runStatements (hs : k.Pre s) (collect : Bool) (c : Cursor) :
    k.Agree s (runStatements host inner collect c) (runStatements host inner' collect c) :=
  agree_statementLoop nested hs collect (hoists c) (Nat.lt_succ_self _) (Nat.lt_succ_self _)

/-- What runs in a frame agrees as soon as the frames it enters do. -/
theorem bodies_of_nested :
    k.Bodies ⟨runStatements host inner, eval host inner⟩ ⟨runStatements host inner', eval host inner'⟩ :=
  ⟨fun collect c _ hs => agree_runStatements nested hs collect c, fun e _ hs => agree_eval nested e hs⟩

end Statements

/-- A contract that encloses itself holds at every depth of frames. -/
theorem bodies_innerAt (self : k.Encloses k) (exhausted : k.Raised .exhausted) (n : Nat) :
    k.Bodies (innerAt host n) (innerAt host n) := by
  induction n with
  | zero =>
    refine ⟨fun collect c s hs => ?_, fun e s hs => ?_⟩
    · exact (tracks_throw hs exhausted).agree
    · exact (tracks_throw hs exhausted).agree
  | succ n ih => exact bodies_of_nested ⟨k, self, ih⟩

end Contract

end Gapscript
