import Gapscript.Proofs.Reading.Scanned
import Gapscript.Proofs.Run.Turns

/-!
# The scan for hoisted declarations and the statement loop

Before the loop runs the statements of a body, a scan of the text looks for the hoisted declarations among them.
The loop finds out what the statements are by reading them one after the other. Over a statement that is legible
the scan passes as the reader does, so after any number of such turns it has found what the loop has executed
(`hoistsAt_of_turns`), and at the end of the body there is nothing else to find. Bare words with an apostrophe in
them can hide a declaration from the scan.
-/

namespace Gapscript

open Lexical

variable {host : Host} {inner : Inner} {collect : Bool} {p q : Stage} {turn : Turn} {turns : List Turn}

/-! ## What the loop executes -/

/-- The hoisted declaration that the loop executed on its turn, with where its initializer starts. -/
def Turn.hoist? (turn : Turn) : Option Hoist :=
  match turn.statement, declarationHeader turn.cursor with
  | .declaration header _ _, .ok (_, d) =>
    if header.life.isHoisted then some { header := header, line := turn.line, initializer := d } else none
  | _, _ => none

/-- The statement is a declaration. -/
def Statement.isDeclaration : Statement → Bool
  | .declaration .. => true
  | _ => false

/-- The statement is legible, and it is a declaration if it begins like a hoisted one. -/
def Turn.legible (turn : Turn) : Bool :=
  turn.statement.legible && (turn.statement.isDeclaration || (hoistAt? turn.cursor).isNone)

/-- A declaration has the header that stands under the cursor. -/
theorem header_of_declaration {ctx : StatementContext} {c d : Cursor} {header : Header} {value : Expr} {debug : Bool}
    (read : statement ctx c = .ok (.declaration header value debug, d)) :
    ∃ e, declarationHeader c = .ok (header, e) := by
  have watches : (watchForm ctx c).Yields fun r => ∀ header value debug,
      r.1 = .declaration header value debug → ∃ e, declarationHeader c = .ok (header, e) :=
    Reading.yields_bind fun _ => Reading.yields_pure fun _ _ _ same => nomatch same
  refine yields_statement (Q := fun stmt => ∀ header value debug, stmt = .declaration header value debug →
    ∃ e, declarationHeader c = .ok (header, e)) ?_ ?_ watches read header value debug rfl
  · rintro stmt ordinary header value debug rfl
    exact ordinary.elim
  · rintro _ e headed _ _ header value debug ⟨⟩
    exact ⟨e, headed⟩

/-- Where the statement of a turn is legible, the scan finds under the cursor what the loop executes. -/
theorem Stage.Takes.hoistAt? (takes : p.Takes host inner collect turn q) (legible : turn.legible = true) :
    hoistAt? turn.cursor = turn.hoist? := by
  have read := takes.read
  rw [Turn.legible, Bool.and_eq_true, Bool.or_eq_true, Option.isNone_iff_eq_none] at legible
  cases stmt : turn.statement with
  | declaration header value debug =>
    rw [stmt] at read
    obtain ⟨d, headed⟩ := header_of_declaration read
    rw [Gapscript.hoistAt?, Turn.hoist?, stmt, headed]
    rfl
  | _ =>
    rw [stmt] at legible
    rw [legible.2.resolve_left Bool.false_ne_true, Turn.hoist?, stmt]

/-- What one legible turn adds to what the scan finds. -/
theorem Stage.Takes.hoistsAt (takes : p.Takes host inner collect turn q) (legible : turn.legible = true) :
    p.cursor.hoistsAt 0 true = turn.hoist?.toList ++ q.cursor.hoistsAt 0 true := by
  have ended : turn.cursor.Ends q.cursor := ends_statement takes.read (Bool.and_eq_true .. ▸ legible).1
  rw [Cursor.hoistsAt_start, takes.here, takes.hoistAt? legible, ended]

theorem hoists_eq_hoistsAt (c : Cursor) : hoists c = c.hoistsAt 0 true := rfl

/-- After any number of legible turns the scan has found what the loop has executed. -/
theorem hoistsAt_of_turns (reached : Turns host inner collect p turns q)
    (legible : ∀ turn ∈ turns, turn.legible = true) :
    p.cursor.hoistsAt 0 true = turns.filterMap Turn.hoist? ++ q.cursor.hoistsAt 0 true := by
  induction reached with
  | stay p => rfl
  | turn takes rest ih =>
    obtain ⟨here, later⟩ := List.forall_mem_cons.1 legible
    rw [takes.hoistsAt here, ih later, List.filterMap_cons]
    cases Turn.hoist? _ with
    | none => rfl
    | some h => rfl

/-- At the end of a text there is nothing to find. -/
theorem hoistsAt_of_atEnd {c : Cursor} (ended : (skipGap c).atEnd = true) : c.hoistsAt 0 true = [] := by
  have rest : (skipGap c).rest = [] := List.isEmpty_iff.1 ended
  rw [Cursor.hoistsAt_start, Cursor.hoistAt?_eq_none (by rw [rest]; simp), Cursor.hoistsAt, rest, hoistsFrom]
  rfl

/-- The scan of a body that is run to its end lists the hoisted declarations that the loop executes as direct
statements of the body, in order and with the same headers, lines and initializers, and nothing else, provided
every statement that the loop reads is legible. -/
theorem hoists_of_run {c : Cursor} {s t : State} (run : runStatements host inner collect c s = .ok none t) :
    (∃ turns last, Turns host inner collect (.start c s) turns last ∧
      (skipGap last.cursor).atEnd = true ∧ last.state = t) ∧
    ∀ turns last, Turns host inner collect (.start c s) turns last → (skipGap last.cursor).atEnd = true →
      (∀ turn ∈ turns, turn.legible = true) → hoists c = turns.filterMap Turn.hoist? := by
  refine ⟨turns_of_runStatements run, fun turns last reached ended legible => ?_⟩
  rw [hoists_eq_hoistsAt, ← List.append_nil (turns.filterMap Turn.hoist?), ← hoistsAt_of_atEnd ended]
  exact hoistsAt_of_turns reached legible

/-- Bare words, a quoted string in an object, a block with a declaration of its own and two declarations that
are hoisted. -/
theorem hoists_of_run_legible :
    let host : Host := ⟨#[], false⟩
    let c : Cursor := .start
      "what it is!\n\x7b var var b<-1> = 2n! \x7d\nvar var a<-2> = \x7b k: \"it's!\" \x7d!\nconst var c<-1> = 4n/2n!" ""
    ∃ t turns last, runStatements host (innerAt host 2) false c {} = .ok none t ∧
      Turns host (innerAt host 2) false (.start c {}) turns last ∧ (skipGap last.cursor).atEnd = true ∧
      (∀ turn ∈ turns, turn.legible = true) ∧ (hoists c).map (·.header.name) = ["a", "c"] ∧
      hoists c = turns.filterMap Turn.hoist? := by
  intro host c
  have reached := @turns_of_stage host (innerAt host 2) false 4 (.start c {})
  have checked : (skipGap (Stage.turns host (innerAt host 2) false 4 (.start c {})).2.cursor).atEnd = true ∧
      (Stage.turns host (innerAt host 2) false 4 (.start c {})).1.all Turn.legible = true := by decide +kernel
  obtain ⟨ended, legible⟩ := checked
  have legible := List.all_eq_true.1 legible
  have run := runStatements_of_atEnd reached ended
  exact ⟨_, _, _, run, reached, ended, legible, by decide +kernel, (hoists_of_run run).2 _ _ reached ended legible⟩

/-- The scan takes the text between the apostrophes of two bare words for a quoted string and misses the
declaration that the loop executes. -/
theorem scan_misses_declaration :
    let host : Host := ⟨#[], false⟩
    let c : Cursor := .start "it's!\na!\nvar var a<-1> = 1n!\nit's!" ""
    ∃ t turns last, runStatements host (innerAt host 1) false c {} = .ok none t ∧
      Turns host (innerAt host 1) false (.start c {}) turns last ∧ (skipGap last.cursor).atEnd = true ∧
      hoists c = [] ∧ (turns.filterMap Turn.hoist?).map (·.header.name) = ["a"] := by
  intro host c
  have reached := @turns_of_stage host (innerAt host 1) false 4 (.start c {})
  have checked : (skipGap (Stage.turns host (innerAt host 1) false 4 (.start c {})).2.cursor).atEnd = true ∧
      ((Stage.turns host (innerAt host 1) false 4 (.start c {})).1.filterMap Turn.hoist?).map (·.header.name) =
        ["a"] := by decide +kernel
  obtain ⟨ended, executed⟩ := checked
  have nothing : (hoists c).isEmpty = true := by decide +kernel
  exact ⟨_, _, _, runStatements_of_atEnd reached ended, reached, ended, List.isEmpty_iff.1 nothing, executed⟩

end Gapscript
