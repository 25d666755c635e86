import Gapscript.Proofs.Run.Lines
import Gapscript.Proofs.Session.Backtracking
import Gapscript.Proofs.Session.Stack

/-!
# The line a statement is measured against

A statement that starts only bodies on its own line is on that line throughout: the value that it
binds or stores is there on that line, and a variable that it declares belongs to it. A call of a
function written elsewhere leaves the statement on a line of that function.
-/

namespace Gapscript

/-! ## What a statement stores -/

/-- The expression whose value a statement binds or stores. A hoisted declaration was bound before. -/
def Statement.stored? : Statement → Option Expr
  | .declaration h value _ => if h.life.isHoisted then none else some value
  | .assignment a _ => a.value
  | _ => none

/-- The variable of a name in the innermost frame, alive or not. -/
def State.innermost? (s : State) (name : String) : Option Variable :=
  s.frames.head?.bind (·.binding? name)

theorem Run.Stopped.bind {α β : Type} {x : Run α} {s : State} (h : x.Stopped s) (f : α → Run β) :
    (x >>= f).Stopped s := by
  obtain ⟨t, ht⟩ := Run.stopped_iff.1 h
  exact Run.stopped_iff.2 ⟨t, Run.bind_of_error ht⟩

section Stored

variable {host : Host} {inner : Inner} {s t : State}

/-- A statement stops where the evaluation of what it stores stops. -/
theorem stopped_perform {stmt : Statement} {e : Expr} (stored : stmt.stored? = some e)
    (h : (eval host inner e).Stopped s) (collect : Bool) (line : Int) :
    (perform host inner collect line stmt).Stopped s := by
  cases stmt with
  | declaration header value debug =>
    unfold Statement.stored? at stored
    dsimp only at stored
    split at stored
    · cases stored
    · next ahead =>
      cases stored
      have declared : (runDeclaration host inner line header e debug).Stopped s := by
        unfold runDeclaration
        rw [if_neg ahead]
        exact h.bind _
      exact declared.bind _
  | assignment a debug =>
    obtain ⟨name, accs, mode, value⟩ := a
    change value = some e at stored
    rw [stored]
    have assigned : (runAssignment host inner ⟨name, accs, mode, some e⟩).Stopped s := h.bind _
    exact assigned.bind _
  | block | conditional | watch | function | giveBack | call | expression => cases stored

theorem binding?_putVariable (v : Variable) (vars : List Variable) (funcs : List FunctionRef) :
    Frame.binding? ⟨Frame.putVariable v vars, funcs⟩ v.name = some v := by
  unfold Frame.binding?
  induction vars with
  | nil => simp [Frame.putVariable]
  | cons w ws ih =>
    rw [Frame.putVariable]
    split
    · simp
    · next other =>
      rw [List.find?_cons_of_neg (by simpa using other)]
      exact ih

theorem innermost?_declare (s : State) (name : String) (value : Value) (m : Mutability)
    (life : LifeTime) : (s.declare name value m life).innermost? name =
      some ⟨name, value, m, life, s.line, false, life.window s.line s.now⟩ := by
  have bound := binding?_putVariable ⟨name, value, m, life, s.line, false, life.window s.line s.now⟩
  unfold State.declare State.modifyTop State.innermost?
  split
  · next top _ _ => exact bound top.vars top.funcs
  · exact bound [] []

/-- A declaration binds the value it evaluates, in the state that evaluation ended in. -/
theorem innermost?_runDeclaration {line : Int} {h : Header} {value : Expr} {debug : Bool}
    (ahead : h.life.isHoisted = false) (run : runDeclaration host inner line h value debug s = .ok () t) :
    ∃ v u, eval host inner value s = .ok v u ∧ t.innermost? h.name =
      some ⟨h.name, v, h.mutability, h.life, u.line, false, h.life.window u.line u.now⟩ := by
  unfold runDeclaration at run
  rw [if_neg (by simp [ahead])] at run
  obtain ⟨v, u, evaluated, run⟩ := Run.bind_eq_ok.1 run
  refine ⟨v, u, evaluated, ?_⟩
  rw [← innermost?_declare]
  -- What follows the declaration only adds records.
  cases debug with
  | false =>
    cases run
    rfl
  | true =>
    cases run
    rfl

end Stored

/-! ## Native functions that keep the line -/

theorem State.SameProgram.line {s t : State} (h : s.SameProgram t) : t.line = s.line := by
  obtain ⟨_, _, _, _, rfl⟩ := h
  rfl

theorem keepsLine_standard {f : HostFunction} (hf : f ∈ Library.standard) : f.KeepsLine :=
  Library.obeys_standard hf (fun same => same.line) fun _ => trivial

theorem steady_standard {f : HostFunction} (hf : f ∈ Library.standard.toArray) :
    f.KeepsFrames ∧ f.KeepsLine := by
  have known : f ∈ Library.standard := by simpa using hf
  exact ⟨keepsFrames_standard known, keepsLine_standard known⟩

/-! ## The line of a statement -/

section Own

variable {host : Host} (natives : ∀ f ∈ host.functions, f.KeepsFrames ∧ f.KeepsLine) {n : Nat} {s : State}
  (hs : s.Balanced) {collect : Bool} {c : Cursor}
  (starts : StartsOnly host (Cursor.onLine c.pos.line) n
    (fun inner => runStatement host inner collect c) s)

theorem nests_ownLine (line : Int) (n : Nat) : (Course.lines natives (· = line)).Nests True
    (confinedAt host (Cursor.onLine line) n) (innerAt host n) :=
  Course.nests_lines (fun _ hb _ hd => hd.line_eq hb) n

theorem on_ownLine {s : State} (hs : s.Balanced) (line : Int) :
    State.On (· = line) { s with line := line } :=
  ⟨⟨hs.height, hs.limit⟩, rfl⟩

include natives hs starts

theorem trail_runStatement :
    Trail host (State.On (· = c.pos.line)) { s with line := c.pos.line }
      ((runStatement host (innerAt host n) collect c).reached s) := by
  have tracks := Course.tracks_runStatement (nests_ownLine natives c.pos.line n)
    (on_ownLine hs c.pos.line) collect (Course.admits_lines rfl)
  -- The statement sets the line first, so it runs the same from its own line.
  have starts' : StartsOnly host (Cursor.onLine c.pos.line) n
    (fun inner => runStatement host inner collect c) { s with line := c.pos.line } := starts
  exact (starts'.allows tracks).2.change

theorem line_stored {stmt : Statement} {d : Cursor}
    (read : statement ⟨State.names { s with line := c.pos.line }, host.endCloses⟩ c = .ok (stmt, d))
    {e : Expr} (stored : stmt.stored? = some e) :
    ((eval host (innerAt host n) e).reached { s with line := c.pos.line }).line = c.pos.line := by
  have evaluates : StartsOnly host (Cursor.onLine c.pos.line) n (fun inner => eval host inner e)
      { s with line := c.pos.line } := by
    intro stopped
    have performed := (stopped_perform stored stopped collect c.pos.line).bind fun flow => do
      Run.debug .statement ("line " ++ toString c.pos.line ++ ": " ++ stmt.form)
      pure (flow, d)
    obtain ⟨t, ht⟩ := Run.stopped_iff.1 performed
    exact starts (Run.stopped_iff.2 ⟨t, (runStatement_of_ok read).trans ht⟩)
  have tracks : (Course.lines natives (· = c.pos.line)).Tracks True { s with line := c.pos.line }
      (eval host (confinedAt host (Cursor.onLine c.pos.line) n) e) (eval host (innerAt host n) e) :=
    Course.tracks_eval (nests_ownLine natives c.pos.line n) e (on_ownLine hs c.pos.line)
  have trail : Trail host (State.On (· = c.pos.line)) _ _ := (evaluates.allows tracks).2.change
  exact trail.finish.line

end Own

/-- A statement that starts only bodies on its own line passes through states on that line only. The
value that it binds or stores is there on that line, and the variable that a declaration binds has
that line as its own: a life of some lines ends that many lines further on. -/
theorem statement_keeps_its_line {host : Host}
    (natives : ∀ f ∈ host.functions, f.KeepsFrames ∧ f.KeepsLine) (n : Nat) {s : State} (hs : s.Balanced)
    (collect : Bool) (c : Cursor)
    (starts : StartsOnly host (Cursor.onLine c.pos.line) n
      (fun inner => runStatement host inner collect c) s) :
    let own : State := { s with line := c.pos.line }
    let run := runStatement host (innerAt host n) collect c
    Trail host (State.On (· = c.pos.line)) own (run.reached s) ∧
    ∀ stmt d, statement ⟨own.names, host.endCloses⟩ c = .ok (stmt, d) →
      (∀ e, stmt.stored? = some e →
        ((eval host (innerAt host n) e).reached own).line = c.pos.line) ∧
      ∀ h value debug flow t, stmt = .declaration h value debug → h.life.isHoisted = false →
        run s = .ok flow t →
        ∃ v, t.innermost? h.name = some v ∧ v.line = c.pos.line ∧ v.life = h.life ∧
          ∀ m, h.life = .lines m → Number.CountsLines m → Number.CountsLines c.pos.line →
            ∀ u : State, Number.CountsLines u.line → (u.alive v = true ↔ u.line ≤ c.pos.line + m) := by
  intro own run
  refine ⟨trail_runStatement natives hs starts, fun stmt d read => ⟨fun e stored => ?_, ?_⟩⟩
  · exact line_stored natives hs starts read stored
  · rintro h value debug flow t rfl ahead ran
    have stored : Statement.stored? (.declaration h value debug) = some value := by
      simp [Statement.stored?, ahead]
    have own_line := line_stored natives hs starts read stored
    change runStatement host (innerAt host n) collect c s = _ at ran
    rw [runStatement_of_ok read] at ran
    obtain ⟨flow', u, performed, ran⟩ := Run.bind_eq_ok.1 ran
    obtain ⟨_, u', declared, performed⟩ := Run.bind_eq_ok.1 performed
    obtain ⟨v, w, evaluated, bound⟩ := innermost?_runDeclaration ahead declared
    unfold Run.reached at own_line
    rw [evaluated] at own_line
    change w.line = c.pos.line at own_line
    rw [own_line] at bound
    cases performed
    cases ran
    refine ⟨_, bound, rfl, rfl, ?_⟩
    intro m lived hm hl u hu
    have window : h.life.window c.pos.line w.now = (LifeTime.lines m).window c.pos.line w.now := by
      rw [lived]
    exact State.alive_iff_of_lines window hm hl hu.2

/-- A declaration that calls a function whose body is on the line of the call. -/
theorem statement_keeps_its_line_call :
    let host : Host := ⟨Library.standard.toArray, false⟩
    let f : Function := ⟨"f", [], .script " return 5n! ".toList { line := 4 } true, 4⟩
    let s : State := { frames := [{ funcs := [⟨0, f⟩] }] }
    let c : Cursor := ⟨"var var x <1> = f!".toList, { line := 4 }⟩
    (∀ f ∈ host.functions, f.KeepsFrames ∧ f.KeepsLine) ∧ s.Balanced ∧
      StartsOnly host (Cursor.onLine 4) 2 (fun inner => runStatement host inner false c) s ∧
      ∃ flow t v, runStatement host (innerAt host 2) false c s = .ok flow t ∧
        t.innermost? "x" = some v ∧ v.line = 4 ∧
        ∀ u : State, Number.CountsLines u.line → (u.alive v = true ↔ u.line ≤ 5) := by
  intro host f s c
  have natives : ∀ f ∈ host.functions, f.KeepsFrames ∧ f.KeepsLine := fun _ => steady_standard
  have balanced : s.Balanced := ⟨rfl, by decide⟩
  have starts : StartsOnly host (Cursor.onLine 4) 2 (fun inner => runStatement host inner false c) s := by
    decide +kernel
  have read : (match statement ⟨State.names { s with line := 4 }, false⟩ c with
      | .ok (.declaration h _ _, _) => h.name == "x" && h.life.lineCount == 1
      | _ => false) = true := by decide +kernel
  have ran : ((runStatement host (innerAt host 2) false c).failure? s).isNone = true := by decide +kernel
  have own := (statement_keeps_its_line natives 2 balanced false c starts).2
  refine ⟨natives, balanced, starts, ?_⟩
  split at read
  · next h value debug d hr =>
    rw [Bool.and_eq_true, beq_iff_eq, beq_iff_eq] at read
    obtain ⟨name, life⟩ := read
    obtain lived : h.life = .lines 1 := by
      cases hl : h.life with
      | lines m => rw [hl] at life; exact congrArg LifeTime.lines life
      | forever | seconds => rw [hl] at life; cases life
    cases hrun : runStatement host (innerAt host 2) false c s with
    | error e t => rw [Run.failure?, hrun] at ran; cases ran
    | ok flow t =>
      have ahead : h.life.isHoisted = false := by rw [lived]; rfl
      obtain ⟨v, bound, line, -, alive⟩ := (own _ _ hr).2 h value debug flow t rfl ahead hrun
      refine ⟨flow, t, v, rfl, name ▸ bound, line, ?_⟩
      exact alive 1 lived (by decide) (by decide)
  · cases read

/-- A declaration on line four that calls a function whose body is on line two: the variable belongs to
line two, so its life of one line is over on line five. -/
theorem statement_leaves_its_line :
    let i := ((Interpreter.new {} false).evaluate
      "function f => \x7b\nreturn 5n!\n\x7d\nvar var x <1> = f!\nprint x!" "").2
    (i.state.innermost? "x").map (·.line) = some 2 ∧ i.state.output = "x\n" := by
  decide +kernel

end Gapscript
