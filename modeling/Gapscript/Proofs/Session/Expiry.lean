import Gapscript.Proofs.Session.OwnLine

/-!
# Expired variables

Whether a variable is alive is worked out from the current line each time it is looked up. A run that
starts no body above a line stays on that line or below it, so a variable whose life was over by then
is never found again. A body further up in the text takes the run back to lines where it was alive.
-/

namespace Gapscript

/-- The variable had a life of some lines, which was over by a line: `m` lines after its own, or, for a
hoisted one, on its own. -/
def Variable.Over (v : Variable) (line : Int) : Prop :=
  Number.CountsLines v.line ∧ ∃ m now, v.window = (LifeTime.lines m).window v.line now ∧
    (0 < m ∧ v.line + m < line ∨ m < 0 ∧ v.line ≤ line)

theorem State.alive_of_over {v : Variable} {line : Int} (word : line ≤ Number.greatestWord)
    (ended : v.Over line) {s : State} (later : line ≤ s.line) : s.alive v = false := by
  obtain ⟨⟨positive, -⟩, m, now, window, ⟨hm, past⟩ | ⟨hm, past⟩⟩ := ended
  · unfold State.alive
    rw [window, Window.expired_lines hm positive (by omega)]
    simp
    omega
  · unfold State.alive
    rw [window, Window.expired_hoisted hm (by omega) now (by omega)]
    rfl

/-- A variable that is found is alive. -/
theorem State.alive_of_lookupVariable {s : State} {name : String} {v : Variable}
    (h : s.lookupVariable name = some v) : s.alive v = true := by
  obtain ⟨f, -, found⟩ := List.exists_of_findSome?_eq_some h
  exact (Option.filter_eq_some_iff.1 found).2

/-- From a line on, statements that start no body above that line pass only through states in which
every variable that was over by then is dead and not found under any name. -/
theorem expired_variables_stay_expired {host : Host}
    (natives : ∀ f ∈ host.functions, f.KeepsFrames ∧ f.KeepsLine) (n : Nat) {s : State} (hs : s.Balanced)
    {line : Int} (word : line ≤ Number.greatestWord) (reached : line ≤ s.line) (collect : Bool)
    (hoists : List Hoist) {c : Cursor} (ahead : line ≤ c.pos.line) {fuel : Nat}
    (budget : c.rest.length < fuel)
    (starts : StartsOnly host (fun body => line ≤ body.pos.line) n
      (fun inner => statementLoop host inner collect fuel hoists c) s) :
    Trail host
      (fun t => ∀ v : Variable, v.Over line → t.alive v = false ∧ ∀ name, t.lookupVariable name ≠ some v)
      s ((statementLoop host (innerAt host n) collect fuel hoists c).reached s) := by
  have nests : (Course.lines natives (line ≤ ·)).Nests True
      (confinedAt host (fun body => line ≤ body.pos.line) n) (innerAt host n) := by
    refine Course.nests_lines (fun b hb d hd => ?_) n
    exact Int.le_trans (of_decide_eq_true hb) hd.line_le
  have passable : (Course.lines natives (line ≤ ·)).Passable host.endCloses c :=
    Course.passable_lines fun d hd => Int.le_trans ahead hd.line_le
  have tracks := Course.tracks_statementLoop nests ⟨hs, reached⟩ collect hoists passable budget budget
  have trail : Trail host (State.On (line ≤ ·)) s _ := (starts.allows tracks).2.change
  refine trail.mono fun {t} there v ended => ?_
  have dead := State.alive_of_over word ended there.line
  refine ⟨dead, fun name found => ?_⟩
  rw [State.alive_of_lookupVariable found] at dead
  cases dead

/-- A variable of line four with a life of one line, looked up by a function on line six. -/
theorem expired_variables_stay_expired_call :
    let host : Host := ⟨Library.standard.toArray, false⟩
    let x : Variable := ⟨"x", .bigint 5, .varVar, .lines 1, 4, false, (LifeTime.lines 1).window 4 0⟩
    let f : Function := ⟨"f", [], .script " return x! ".toList { line := 6 } true, 6⟩
    let s : State := { frames := [{ vars := [x], funcs := [⟨0, f⟩] }], line := 6 }
    let c : Cursor := ⟨"var var y = f!\ny!".toList, { line := 6 }⟩
    let run := fun inner => statementLoop host inner false 100 [] c
    (∀ f ∈ host.functions, f.KeepsFrames ∧ f.KeepsLine) ∧ s.Balanced ∧
      StartsOnly host (fun body => 6 ≤ body.pos.line) 2 run s ∧ x.Over 6 ∧
      ((run (innerAt host 2)).reached s).alive x = false := by
  intro host x f s c run
  have natives : ∀ f ∈ host.functions, f.KeepsFrames ∧ f.KeepsLine := fun _ => steady_standard
  have balanced : s.Balanced := ⟨rfl, by decide⟩
  have starts : StartsOnly host (fun body => 6 ≤ body.pos.line) 2 run s := by decide +kernel
  have ended : x.Over 6 := ⟨by decide, 1, 0, rfl, .inl (by decide)⟩
  have trail := expired_variables_stay_expired natives 2 balanced (by decide) (Int.le_refl 6) false []
    (Int.le_refl 6) (by decide) starts
  exact ⟨natives, balanced, starts, ended, (trail.finish x ended).1⟩

/-- A variable of line four with a life of one line is gone on line six, and back on line seven, where a
function of line two looks it up. -/
theorem expired_variable_revives :
    let i := ((Interpreter.new {} false).evaluate
      "function f => \x7b\nreturn x!\n\x7d\nvar var x <1> = 5n!\n1n!\nprint x!\nprint f!\nprint end!" "").2
    i.state.output = "x\n5\nend\n" := by
  decide +kernel

end Gapscript
