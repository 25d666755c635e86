import Gapscript.Proofs.Run.Tracked
import Gapscript.Proofs.Session.OwnLine

/-!
# The turns of the statement loop

A turn of the loop binds what is due on the line of the next statement, reads that statement and runs it,
and looks at the watches. `Stage.Takes` is one turn from what the loop is given to what it goes on with,
and `Turns` any number of them. A turn spends one unit of the budget, so after any number of turns the loop
goes on where they ended (`statementLoop_of_turns`, `runStatements_of_turns`); and a body that is run to its
end is run by turns that lead there (`turns_of_runStatements`). `Stage.next?` and `Stage.turns` compute the turns
that are taken (`takes_of_next?`, `turns_of_stage`).
-/

namespace Gapscript

/-- What the statement loop is given: the hoisted declarations that it waits for, the text and the state. -/
structure Stage where
  waiting : List Hoist
  cursor : Cursor
  state : State

/-- The stage that the run of a body starts from. -/
def Stage.start (c : Cursor) (s : State) : Stage := ⟨hoists c, c, s⟩

/-- A statement that the loop ran: where it starts, the states in which it was read and which it left, and
the flow it ended with. -/
structure Turn where
  cursor : Cursor
  statement : Statement
  arrival : State
  finish : State
  flow : Flow

/-- The line that the statement starts on. -/
def Turn.line (turn : Turn) : Int := turn.cursor.pos.line

section Turns

variable (host : Host) (inner : Inner) (collect : Bool)

/-- One turn of the statement loop. -/
structure Stage.Takes (p : Stage) (turn : Turn) (q : Stage) : Prop where
  here : Lexical.skipGap p.cursor = turn.cursor
  more : turn.cursor.atEnd = false
  bound : bindDue host inner p.waiting turn.cursor p.state = .ok q.waiting turn.arrival
  read : statement ⟨State.names { turn.arrival with line := turn.line }, host.endCloses⟩ turn.cursor =
    .ok (turn.statement, q.cursor)
  ran : runStatement host inner collect turn.cursor turn.arrival = .ok (turn.flow, q.cursor) turn.finish
  stays : ∀ v, turn.flow ≠ .returned v
  looked : (do collectValue collect turn.flow; checkWatches host inner) turn.finish = .ok () q.state

/-- Turns of the statement loop, one after the other. -/
inductive Turns : Stage → List Turn → Stage → Prop
  | stay (p : Stage) : Turns p [] p
  | turn {p q r : Stage} {first : Turn} {turns : List Turn} (takes : p.Takes host inner collect first q)
    (rest : Turns q turns r) : Turns p (first :: turns) r

/-- The turn that the loop takes next and the stage it leads to, if there is a statement that is run without
a failure or a return. -/
def Stage.next? (p : Stage) : Option (Turn × Stage) :=
  let c := Lexical.skipGap p.cursor
  if c.atEnd then none
  else match bindDue host inner p.waiting c p.state with
    | .error _ _ => none
    | .ok waiting arrival =>
      match statement ⟨State.names { arrival with line := c.pos.line }, host.endCloses⟩ c,
          runStatement host inner collect c arrival with
      | .ok (_, _), .ok (.returned _, _) _ => none
      | .ok (stmt, _), .ok (flow, d) finish =>
        match (do collectValue collect flow; checkWatches host inner : Run Unit) finish with
        | .ok _ t => some (⟨c, stmt, arrival, finish, flow⟩, ⟨waiting, d, t⟩)
        | .error _ _ => none
      | _, _ => none

/-- The next turns of the loop, at most `n`, and the stage they lead to. -/
def Stage.turns : (n : Nat) → Stage → List Turn × Stage
  | 0, p => ([], p)
  | n + 1, p =>
    match p.next? host inner collect with
    | none => ([], p)
    | some (turn, q) =>
      let (more, r) := Stage.turns n q
      (turn :: more, r)

end Turns

variable {host : Host} {inner : Inner} {collect : Bool} {p q : Stage} {turn : Turn} {turns : List Turn}

namespace Stage.Takes

theorem passes (h : p.Takes host inner collect turn q) : p.cursor.Passes q.cursor :=
  (Cursor.reaches_skipGap p.cursor).then (h.here ▸ passes_statement h.read)

/-- A turn spends one unit of the budget. -/
theorem loop (h : p.Takes host inner collect turn q) (fuel : Nat) :
    statementLoop host inner collect (fuel + 1) p.waiting p.cursor p.state =
      statementLoop host inner collect fuel q.waiting q.cursor q.state := by
  obtain ⟨_, u, collected, looked⟩ := Run.bind_eq_ok.1 h.looked
  have ran : Run.locate (some turn.cursor.pos) (runStatement host inner collect turn.cursor) turn.arrival =
      .ok (turn.flow, q.cursor) turn.finish := by
    rw [Run.locate, h.ran]
  have more : ¬ turn.cursor.atEnd = true := Bool.not_eq_true _ ▸ h.more
  rw [statementLoop]
  dsimp only
  rw [h.here, if_neg more, Run.bind_of_ok h.bound, Run.bind_of_ok ran, Run.bind_of_ok collected]
  cases hf : turn.flow with
  | returned v => exact absurd hf (h.stays v)
  | next | produced v => exact Run.bind_of_ok looked

end Stage.Takes

theorem bindDue_of_ne_nil {hs : List Hoist} {c : Cursor} (waits : hs ≠ []) : bindDue host inner hs c = (do
    modify fun s => { s with line := c.pos.line }
    Run.locate (some c.pos) (bindHoists host inner c.pos.line hs)) := by
  cases hs with
  | nil => exact absurd rfl waits
  | cons => rfl

/-- A statement that is run was read. -/
theorem read_of_runStatement {c d : Cursor} {flow : Flow} {s t : State}
    (ran : runStatement host inner collect c s = .ok (flow, d) t) :
    ∃ stmt, statement ⟨State.names { s with line := c.pos.line }, host.endCloses⟩ c = .ok (stmt, d) := by
  cases read : statement ⟨State.names { s with line := c.pos.line }, host.endCloses⟩ c with
  | error e =>
    rw [runStatement_of_error read] at ran
    cases ran
  | ok r =>
    rw [runStatement_of_ok read] at ran
    obtain ⟨_, _, -, ran⟩ := Run.bind_eq_ok.1 ran
    obtain ⟨_, _, -, ran⟩ := Run.bind_eq_ok.1 ran
    cases ran
    exact ⟨r.1, rfl⟩

/-- Where the loop ends without a return, it either has no statement ahead or takes a turn. -/
theorem takes_of_statementLoop {fuel : Nat} {t : State}
    (run : statementLoop host inner collect (fuel + 1) p.waiting p.cursor p.state = .ok none t) :
    (Lexical.skipGap p.cursor).atEnd = true ∧ p.state = t ∨
      ∃ turn q, p.Takes host inner collect turn q ∧
        statementLoop host inner collect fuel q.waiting q.cursor q.state = .ok none t := by
  rw [statementLoop] at run
  dsimp only at run
  split at run
  · next done =>
    cases run
    exact .inl ⟨done, rfl⟩
  · next more =>
    refine .inr ?_
    obtain ⟨waiting, arrival, bound, run⟩ := Run.bind_eq_ok.1 run
    obtain ⟨⟨flow, d⟩, finish, ran, run⟩ := Run.bind_eq_ok.1 run
    obtain ⟨_, u, collected, run⟩ := Run.bind_eq_ok.1 run
    have ran := Run.locate_eq_ok ran
    have goes : (∀ v, flow ≠ .returned v) ∧ ∃ state, checkWatches host inner u = .ok () state ∧
        statementLoop host inner collect fuel waiting d state = .ok none t := by
      cases flow with
      | returned v => cases run
      | next | produced v =>
        obtain ⟨_, state, looked, run⟩ := Run.bind_eq_ok.1 run
        exact ⟨fun _ => Flow.noConfusion, state, looked, run⟩
    obtain ⟨stays, state, looked, run⟩ := goes
    obtain ⟨stmt, read⟩ := read_of_runStatement ran
    exact ⟨⟨_, stmt, arrival, finish, flow⟩, ⟨waiting, d, state⟩,
      ⟨rfl, Bool.not_eq_true _ ▸ more, bound, read, ran, stays, Run.bind_eq_ok.2 ⟨_, _, collected, looked⟩⟩, run⟩

namespace Turns

theorem length_le (h : Turns host inner collect p turns q) :
    turns.length + q.cursor.rest.length ≤ p.cursor.rest.length := by
  induction h with
  | stay p => exact Nat.le_of_eq (Nat.zero_add _)
  | turn takes rest ih =>
    have shorter := takes.passes.length_lt
    rw [List.length_cons]
    omega

theorem reaches (h : Turns host inner collect p turns q) : p.cursor.Reaches q.cursor := by
  induction h with
  | stay p => exact .refl _
  | turn takes rest ih => exact takes.passes.reaches.trans ih

theorem snoc {r : Stage} (h : Turns host inner collect p turns q) (takes : q.Takes host inner collect turn r) :
    Turns host inner collect p (turns ++ [turn]) r := by
  induction h with
  | stay p => exact .turn takes (.stay r)
  | turn first rest ih => exact .turn first (ih takes)

/-- Each of the turns is taken from some stage. -/
theorem takes (h : Turns host inner collect p turns q) (taken : turn ∈ turns) :
    ∃ p' q', Stage.Takes host inner collect p' turn q' := by
  induction h with
  | stay p => cases taken
  | turn takes rest ih =>
    rcases List.mem_cons.1 taken with rfl | later
    · exact ⟨_, _, takes⟩
    · exact ih later

end Turns

/-- After any number of turns the loop goes on where they ended. -/
theorem statementLoop_of_turns (h : Turns host inner collect p turns q) (fuel : Nat) :
    statementLoop host inner collect (fuel + turns.length) p.waiting p.cursor p.state =
      statementLoop host inner collect fuel q.waiting q.cursor q.state := by
  induction h with
  | stay p => rfl
  | turn takes rest ih => exact (takes.loop _).trans ih

/-- The run of a body is what the loop does from any stage that turns lead to. -/
theorem runStatements_of_turns {c : Cursor} {s : State}
    (h : Turns host inner collect (.start c s) turns q) : ∃ fuel, q.cursor.rest.length ≤ fuel ∧
      runStatements host inner collect c s =
        statementLoop host inner collect (fuel + 1) q.waiting q.cursor q.state := by
  have covered : turns.length + q.cursor.rest.length ≤ c.rest.length := h.length_le
  refine ⟨c.rest.length - turns.length, by omega, ?_⟩
  rw [← statementLoop_of_turns h, Nat.add_right_comm, Nat.sub_add_cancel (by omega)]
  rfl

/-- A body that is run to its end is run by turns that lead there. -/
theorem turns_of_runStatements {c : Cursor} {s t : State}
    (run : runStatements host inner collect c s = .ok none t) :
    ∃ turns q, Turns host inner collect (.start c s) turns q ∧
      (Lexical.skipGap q.cursor).atEnd = true ∧ q.state = t := by
  have loop {fuel : Nat} {p : Stage}
      (run : statementLoop host inner collect fuel p.waiting p.cursor p.state = .ok none t) :
      ∃ turns q, Turns host inner collect p turns q ∧
        (Lexical.skipGap q.cursor).atEnd = true ∧ q.state = t := by
    induction fuel generalizing p with
    | zero => cases run
    | succ fuel ih =>
      rcases takes_of_statementLoop run with ⟨done, same⟩ | ⟨turn, q, takes, run⟩
      · exact ⟨[], p, .stay p, done, same⟩
      · obtain ⟨turns, r, rest, ended⟩ := ih run
        exact ⟨turn :: turns, r, .turn takes rest, ended⟩
  exact loop run

/-! ## Computed turns -/

theorem takes_of_next? (h : p.next? host inner collect = some (turn, q)) : p.Takes host inner collect turn q := by
  unfold Stage.next? at h
  dsimp only at h
  split at h
  · cases h
  · next more =>
    split at h
    · cases h
    · next waiting arrival bound =>
      split at h
      · cases h
      · next stmt d' flow d finish open_ read ran =>
        split at h
        · next looked =>
          cases h
          have same : d' = d := by
            have run := ran
            rw [runStatement_of_ok read] at run
            obtain ⟨_, _, -, run⟩ := Run.bind_eq_ok.1 run
            obtain ⟨_, _, -, run⟩ := Run.bind_eq_ok.1 run
            cases run
            rfl
          subst same
          exact ⟨rfl, Bool.not_eq_true _ ▸ more, bound, read, ran, fun v same => open_ v same, looked⟩
        · cases h
      · cases h

theorem turns_of_stage (n : Nat) (p : Stage) :
    Turns host inner collect p (p.turns host inner collect n).1 (p.turns host inner collect n).2 := by
  induction n generalizing p with
  | zero => exact .stay p
  | succ n ih =>
    rw [Stage.turns]
    split
    · exact .stay p
    · next turn q next => exact .turn (takes_of_next? next) (ih q)

/-- Turns that lead to the end of a body run it. -/
theorem runStatements_of_atEnd {c : Cursor} {s : State} (reached : Turns host inner collect (.start c s) turns q)
    (ended : (Lexical.skipGap q.cursor).atEnd = true) : runStatements host inner collect c s = .ok none q.state := by
  obtain ⟨fuel, -, goes⟩ := runStatements_of_turns reached
  rw [goes, statementLoop]
  exact congrFun (if_pos ended) q.state

end Gapscript
