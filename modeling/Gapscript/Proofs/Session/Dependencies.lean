import Gapscript.Proofs.Reading.Dependencies
import Gapscript.Proofs.Run.Changes
import Gapscript.Proofs.Session.Located

/-!
# What fires a watch

A watch depends on every variable of its guards, from the statement that attaches it until its frame is
left, and also on those of the trees that its guards are read as when it is fired. When such a variable is
assigned a value that is not strictly equal to the one the watch saw last, the next look fires the watch,
unless a watch looked at before it changed the variable back or failed. The variable that a call in a
guard is made through is not one of them.
-/

namespace Gapscript

section Looks

variable {host : Host} {inner : Inner} {v s : State} {j : Nat} {w : Watch}

/-- A look at all watches that comes to one it fires goes on with the watches after it. -/
theorem checkWatches_of_fires (h : Fires host inner v j w s) (within : j < v.watches.length) :
    checkWatches host inner v =
      (do fireWatch host inner j w; checkWatchesFrom host inner (j + 1) (v.watches.length - (j + 1)) : Run Unit)
        (s.noting j w) := by
  obtain ⟨rest, split⟩ : ∃ rest, v.watches.length = j + (rest + 1) := ⟨v.watches.length - (j + 1), by omega⟩
  have after : v.watches.length - (j + 1) = rest := by omega
  have all : checkWatches host inner v = checkWatchesFrom host inner 0 v.watches.length v := rfl
  have look : checkWatch host inner j s = fireWatch host inner j w (s.noting j w) :=
    checkWatch_of_changed h.attached h.idle h.changed
  rw [after, all, split, checkWatchesFrom_add h.before, Nat.zero_add, checkWatchesFrom]
  change EStateM.bind _ _ s = EStateM.bind _ _ (s.noting j w)
  rw [EStateM.bind, EStateM.bind, look]

end Looks

/-- What a watch depends on holds every variable of its guards from the statement that attaches it on:
when its guards are read anew, and along every journey until its frame is left. A variable of them that is
assigned a value not strictly equal to the one the watch saw last fires it at the next look. -/
theorem guard_variables_watched {host : Host} {inner : Inner} {collect : Bool} {c d : Cursor} {s : State}
    {bs : List Branch} {deps : List String}
    (reads : statement ⟨State.names { s with line := c.pos.line }, host.endCloses⟩ c = .ok (.watch bs deps, d)) :
    Branch.allVariables bs ⊆ deps ∧
    (∃ u, runStatement host inner collect c s = .ok (.next, d) u ∧ u.frames = s.frames ∧
      u.watches = s.watches ++ [⟨bs, deps, u.valuesOf deps, false, c.pos.line, s.depth⟩]) ∧
    (∀ names (known : List String) bs' known', readGuards names bs known = .ok bs' known' →
      known ⊆ known' ∧ Branch.allVariables bs' ⊆ known') ∧
    ((∀ f ∈ host.functions, f.KeepsBindings) → ∀ m ds m', Journey host m ds m' → m.Sound →
      ∀ (j : Nat) w, m.state.watches[j]? = some w → w.branches = bs → deps ⊆ w.deps →
        (∀ e ∈ ds, e.1 ≠ .leave w.height) →
        ∃ w', m'.state.watches[j]? = some w' ∧ w'.branches = bs ∧ Branch.allVariables bs ⊆ w'.deps) ∧
    ∀ name ∈ Branch.allVariables bs, ∀ (t t' u : State) (j : Nat) w mode rhs v old,
      t.watches[j]? = some w → w.WellFormed → w.firing = false → deps ⊆ w.deps →
      (∀ seen, (name, seen) ∈ w.deps.zip w.snapshot → seen.Same old.value) →
      t.lookupVariable name = some old → assignName name mode rhs t = .ok v t' →
      v.strictEq old.value = false → checkWatchesFrom host inner 0 j t' = .ok () u →
      u.watches[j]? = some w → (u.valueOf name).Same v →
      checkWatches host inner t' =
        (do fireWatch host inner j w; checkWatchesFrom host inner (j + 1) (t'.watches.length - (j + 1)) : Run Unit)
          (u.noting j w) := by
  have covered : Branch.allVariables bs ⊆ deps := covered_statement reads
  refine ⟨covered, ?_, ?_, ?_, ?_⟩
  · unfold runStatement
    rw [Run.modify_bind, Run.get_bind, reads]
    exact ⟨_, rfl, rfl, rfl⟩
  · intro names known bs' known' run
    have records := records_readGuards names bs known
    refine ⟨?_, records.noted known bs' known' (List.Subset.refl _) run⟩
    have grows := records.grows known
    rwa [run] at grows
  · intro natives m ds m' journey sound j w here branches known stays
    obtain ⟨w', there, shape, grows⟩ := watch_journey natives journey sound here stays
    refine ⟨w', there, (congrArg Watch.branches shape).trans branches, ?_⟩
    exact List.Subset.trans covered (List.Subset.trans known grows.subset)
  · intro name hn t t' u j w mode rhs v old here formed idle known saw found ran other before there kept
    obtain ⟨seen, pair⟩ := formed.exists_seen (known (covered hn))
    have differs : (u.valueOf name).strictEq seen = false := by
      rw [Bool.eq_false_iff, Ne, Value.strictEq_iff]
      rintro ⟨same, ordinary⟩
      have equal : v.strictEq old.value = true := Value.strictEq_iff.2
        ⟨kept.symm.trans (same.trans (saw seen pair)), kept.isNaN.symm.trans ordinary⟩
      rw [equal] at other
      cases other
    have within : j < t'.watches.length := by
      rw [eq_of_assignName ran found]
      exact (List.getElem?_eq_some_iff.1 here).1
    exact checkWatches_of_fires ⟨before, there, idle, Watch.changed_of_strictEq pair differs⟩ within

/-- The branches of the statement, if it is a watch. -/
def Statement.branches : Statement → List Branch
  | .watch bs _ => bs
  | _ => []

/-- A variable of an array within an object in a second guard is one that the watch depends on. -/
theorem guard_variables_watched_nested :
    let x : Variable := ⟨"x", .bigint 1, .varVar, .forever, 1, false, LifeTime.forever.window 1 0⟩
    let s : State := { frames := [{ vars := [x] }] }
    let c := Cursor.start "when true { } else when {a: [1, x]} { }" ""
    ∃ bs deps d, statement ⟨State.names { s with line := c.pos.line }, false⟩ c = .ok (.watch bs deps, d) ∧
      "x" ∈ Branch.allVariables bs ∧ Branch.allVariables bs ⊆ deps := by
  intro x s c
  have read : (match statement ⟨State.names { s with line := c.pos.line }, false⟩ c with
      | .ok (stmt, _) => (Branch.allVariables stmt.branches).contains "x"
      | .error _ => false) = true := by decide +kernel
  split at read
  · next stmt d reads =>
    cases stmt with
    | watch bs deps =>
      let host : Host := ⟨#[], false⟩
      refine ⟨bs, deps, d, reads, List.contains_iff_mem.1 read, ?_⟩
      exact (@guard_variables_watched host (innerAt host 1) true c d s bs deps reads).1
    | _ => cases read
  · cases read

/-- A watch does not depend on the variable that a call in its guard is made through: giving it another
function does not fire the watch. -/
theorem callee_unwatched :
    let i := ((Interpreter.new {} false).evaluate
      "var var f = x => x!\nwhen f 1n \x7b print fired! \x7d\nf = x => x!" "").2
    i.state.output = "" ∧
      i.state.watches.any fun w => w.deps.isEmpty && w.branches.any fun b => b.guard.any fun g =>
        match g.tree with
        | .atom (.call name fn _ _) _ _ =>
          (i.state.lookupVariable name).any fun v => !v.value.strictEq (.function fn)
        | _ => false := by
  decide +kernel

end Gapscript
