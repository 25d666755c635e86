import Gapscript.Proofs.Binding.Window
import Gapscript.Proofs.Run.Declaring
import Gapscript.Proofs.Run.Positions

/-!
# The lines of a hoisted declaration

A hoisted declaration with a life of `n` lines, so `n` is negative, is to be there on the `-n` lines ahead
of its own. The loop binds it before the first statement on one of these lines, and never again
(`bindHoists_after`); what it is bound with keeps its window, whichever line its initializer leaves the
program on, and nothing but a declaration of the same name replaces it (`Turn.Declares`). So on every line
that a statement of the body starts on, the binding is there exactly if the line is one of those
(`Hoist.alive_of_not_declares`), as long as no statement declares the name in place or assigns to it plainly
(`Hoist.alive_of_statements`).
-/

namespace Gapscript

/-! ## Hoisted declarations and lines -/

/-- The line is one of those ahead of the declaration on which its binding is to be there. -/
def Hoist.ahead (h : Hoist) (line : Int) : Bool :=
  h.line + h.header.life.lineCount ≤ line && line < h.line

/-- The declaration as it is waited for after statements on some lines. -/
def Hoist.after (lines : List Int) (h : Hoist) : Hoist := { h with bound := lines.any h.ahead }

/-- The line is the first of those ahead of the declaration. -/
def Hoist.begins (h : Hoist) (lines : List Int) (line : Int) : Bool := h.ahead line && !lines.any h.ahead

/-- What a declaration with a life before its own line is bound with, but for the value. -/
def Hoist.binding (h : Hoist) : Variable :=
  ⟨h.header.name, .undefined, h.header.mutability, h.header.life, h.line, true,
    h.header.life.window h.line 0⟩

/-- A declaration on a line that can be counted, with a negative life that is a word. -/
def Hoist.Counted (h : Hoist) : Prop :=
  ∃ n, h.header.life = .lines n ∧ n < 0 ∧ Number.leastWord ≤ n ∧ Number.CountsLines h.line

theorem Cursor.Reaches.line_le_count {c d : Cursor} (h : c.Reaches d) :
    d.pos.line ≤ c.pos.line + c.rest.count '\n' := by
  obtain ⟨p, split, moves⟩ := h.movesTo
  rw [moves.line, split, List.count_append]
  omega

namespace Hoist

variable {h : Hoist} {lines : List Int} {line : Int}

theorem ahead_iff : h.ahead line = true ↔ h.line + h.header.life.lineCount ≤ line ∧ line < h.line := by
  rw [ahead, Bool.and_eq_true, decide_eq_true_iff, decide_eq_true_iff]

theorem counted_hoists {c : Cursor} (first : 0 < c.pos.line)
    (last : c.pos.line + c.rest.count '\n' ≤ Number.greatestWord) : ∀ h ∈ hoists c, h.Counted := by
  intro h hh
  obtain ⟨⟨e, reached, line⟩, hoisted, fits⟩ := hoisted_hoists c h hh
  have start := reached.line_le
  have finish := reached.line_le_count
  cases life : h.header.life with
  | lines n =>
    rw [life] at hoisted fits
    exact ⟨n, life, of_decide_eq_true hoisted, fits.1, by omega, by omega⟩
  | forever | seconds => rw [life] at hoisted; cases hoisted

theorem bound_hoists {c : Cursor} : ∀ h ∈ hoists c, h.bound = false := by
  intro h hh
  obtain ⟨e, -, found⟩ := found_hoists c h hh
  unfold hoistAt? at found
  split at found
  · split at found
    · cases found
      rfl
    · cases found
  · cases found

theorem after_nil (unbound : h.bound = false) : h.after [] = h := by
  obtain ⟨header, line, initializer, bound⟩ := h
  cases unbound
  rfl

theorem after_append (h : Hoist) (lines : List Int) (line : Int) :
    h.after (lines ++ [line]) =
      if h.begins lines line then { h with bound := true } else h.after lines := by
  rw [after, List.any_append, List.any_cons, List.any_nil, Bool.or_false]
  split
  · next first =>
    rw [begins, Bool.and_eq_true] at first
    rw [first.1, Bool.or_true]
  · next other =>
    rw [begins, Bool.and_eq_true, Bool.not_eq_true'] at other
    rw [after]
    cases seen : lines.any h.ahead with
    | true => rfl
    | false =>
      have apart : h.ahead line = false := Bool.not_eq_true _ ▸ fun here => other ⟨here, seen⟩
      rw [apart]
      rfl

theorem map_after_nil (c : Cursor) : (hoists c).map (·.after []) = hoists c :=
  (List.map_congr_left fun h known => after_nil (bound_hoists h known)).trans (List.map_id _)

namespace Counted

theorem visibleFrom_eq (counted : h.Counted) : h.visibleFrom = h.line + h.header.life.lineCount := by
  obtain ⟨n, life, negative, least, positive, greatest⟩ := counted
  rw [visibleFrom, life]
  exact Number.word_of_within (by dsimp only [LifeTime.lineCount]; omega)
    (by dsimp only [LifeTime.lineCount]; omega)

/-- A window that is measured in lines is the same at any time. -/
theorem window_eq (counted : h.Counted) (now : Int) :
    h.header.life.window h.line now = h.header.life.window h.line 0 := by
  obtain ⟨n, life, negative, -⟩ := counted
  rw [life, Window.window_hoisted negative, Window.window_hoisted negative]

theorem alive_iff (counted : h.Counted) {v : Variable} (bound : v.window = h.binding.window) (s : State) :
    s.alive v = h.ahead s.line := by
  obtain ⟨n, life, negative, least, onLine⟩ := counted
  rw [Bool.eq_iff_iff, State.alive, bound, binding, life, Bool.not_eq_true',
    Window.expired_ahead negative least onLine, ahead_iff, life]
  rfl

/-- The declaration is bound on a line exactly if the line is the first of those ahead of it. -/
theorem due_after (counted : h.Counted) (lines : List Int) (line : Int) :
    ((h.after lines).bound || line < (h.after lines).visibleFrom || line ≥ (h.after lines).line) =
      !h.begins lines line := by
  have from_eq : (h.after lines).visibleFrom = h.line + h.header.life.lineCount := counted.visibleFrom_eq
  have outside : (decide (line < h.line + h.header.life.lineCount) || decide (line ≥ h.line)) =
      !h.ahead line := by
    rw [ahead, Bool.not_and, ← decide_not, ← decide_not]
    simp only [Int.not_le, Int.not_lt, ge_iff_le]
  rw [from_eq, Bool.or_assoc]
  refine (congrArg (lines.any h.ahead || ·) outside).trans ?_
  rw [begins, Bool.not_and, Bool.not_not, Bool.or_comm]

end Counted

end Hoist

/-! ## Binding what is due -/

section Due

variable (host : Host) (inner : Inner)

/-- Evaluates and binds hoisted declarations, one after the other. -/
def bindEach (hs : List Hoist) : Run Unit := hs.forM (bindHoist host inner)

theorem bindEach_cons (h : Hoist) (hs : List Hoist) : bindEach host inner (h :: hs) = (do
    bindHoist host inner h
    bindEach host inner hs) := rfl

/-- What is waited for after some lines is bound on the first of the lines ahead of it. -/
theorem bindHoists_after {hs : List Hoist} (counted : ∀ h ∈ hs, h.Counted) (lines : List Int) (line : Int) :
    bindHoists host inner line (hs.map (·.after lines)) = (do
      bindEach host inner (hs.filter (·.begins lines line))
      pure (hs.map (·.after (lines ++ [line])))) := by
  induction hs with
  | nil => rfl
  | cons h hs ih =>
    obtain ⟨here, later⟩ := List.forall_mem_cons.1 counted
    rw [List.map_cons, bindHoists, here.due_after, ih later, List.map_cons, h.after_append]
    rw [List.filter_cons]
    split
    · next waits =>
      have later : ¬ h.begins lines line = true := by rwa [Bool.not_eq_true', ← Bool.not_eq_true] at waits
      rw [if_neg later, if_neg later, bind_assoc]
      rfl
    · next due =>
      have first : h.begins lines line = true := by rwa [Bool.not_eq_true', Bool.not_eq_false] at due
      rw [if_pos first, if_pos first, bindEach_cons]
      simp only [bind_assoc, pure_bind]
      rfl

end Due

section Bound

variable {host : Host} (natives : ∀ f ∈ host.functions, f.KeepsScopes) {n : Nat} {s t : State} {name : String}

include natives

/-- The variable that a hoisted declaration is bound with has its window, whichever line its initializer
left the program on. -/
theorem shape?_bindHoist {h : Hoist} (counted : h.Counted)
    (run : bindHoist host (innerAt host n) h s = .ok () t) :
    t.shape? name = if h.header.name = name then some h.binding else s.shape? name := by
  unfold bindHoist at run
  obtain ⟨⟨e, d⟩, u, read, run⟩ := Run.bind_eq_ok.1 run
  obtain ⟨v, w, located, run⟩ := Run.bind_eq_ok.1 run
  have same : s = u := by
    unfold Run.read at read
    split at read
    · cases read
      rfl
    · cases read
  have evaluated := Run.locate_eq_ok located
  have kept : w.shape? name = u.shape? name := shape?_eval natives evaluated
  -- What follows the binding only adds records.
  have bound : t.shape? name =
      (w.declareHoisted h.header.name v h.header.mutability h.header.life h.line).shape? name := by
    cases run
    rfl
  rw [bound, State.shape?]
  split
  · next here =>
    rw [← here, innermost?_declareHoisted, counted.window_eq]
    rfl
  · next apart =>
    rw [innermost?_declareHoisted_of_ne apart, same]
    exact kept

theorem shape?_bindEach {hs : List Hoist} (counted : ∀ h ∈ hs, h.Counted) {b : Variable}
    (same : ∀ h ∈ hs, h.header.name = name → h.binding = b)
    (run : bindEach host (innerAt host n) hs s = .ok () t) :
    t.shape? name = if hs.any (·.header.name = name) then some b else s.shape? name := by
  induction hs generalizing s with
  | nil =>
    cases run
    rfl
  | cons h hs ih =>
    obtain ⟨here, later⟩ := List.forall_mem_cons.1 counted
    obtain ⟨same, sames⟩ := List.forall_mem_cons.1 same
    obtain ⟨_, u, first, rest⟩ := Run.bind_eq_ok.1 run
    rw [ih later sames rest, shape?_bindHoist natives here first, List.any_cons]
    by_cases named : h.header.name = name
    · simp [named, same named]
    · simp [named]

end Bound

/-! ## The turns of a body -/

section Due

variable {host : Host} {inner : Inner} {hs : List Hoist} {lines : List Int} {c : Cursor}

/-- What the loop binds before a statement, after statements on some lines. -/
theorem bindDue_after (counted : ∀ h ∈ hs, h.Counted) (waits : hs ≠ []) (lines : List Int) (c : Cursor) :
    bindDue host inner (hs.map (·.after lines)) c = (do
      modify fun s => { s with line := c.pos.line }
      Run.locate (some c.pos) (do
        bindEach host inner (hs.filter (·.begins lines c.pos.line))
        pure (hs.map (·.after (lines ++ [c.pos.line]))))) := by
  rw [bindDue_of_ne_nil fun none => waits (List.map_eq_nil_iff.1 none), bindHoists_after host inner counted]

theorem bindDue_eq_ok {s t : State} {waiting : List Hoist} (counted : ∀ h ∈ hs, h.Counted)
    (run : bindDue host inner (hs.map (·.after lines)) c s = .ok waiting t) :
    waiting = hs.map (·.after (lines ++ [c.pos.line])) ∧
      (hs ≠ [] → bindEach host inner (hs.filter (·.begins lines c.pos.line)) { s with line := c.pos.line } =
        .ok () t) := by
  by_cases waits : hs = []
  · subst waits
    cases run
    exact ⟨rfl, fun some => absurd rfl some⟩
  · rw [bindDue_after counted waits, Run.modify_bind] at run
    obtain ⟨_, u, bound, run⟩ := Run.bind_eq_ok.1 (Run.locate_eq_ok run)
    cases run
    exact ⟨rfl, fun _ => bound⟩

end Due

section Stages

variable {host : Host} {n : Nat} {collect : Bool} {p q : Stage} {turn : Turn} {turns : List Turn}
  {hs : List Hoist} {lines : List Int} {h : Hoist}

theorem Turns.waiting {inner : Inner} (counted : ∀ h ∈ hs, h.Counted) (waits : p.waiting = hs.map (·.after lines))
    (reached : Turns host inner collect p turns q) :
    q.waiting = hs.map (·.after (lines ++ turns.map Turn.line)) := by
  induction reached generalizing lines with
  | stay p => rw [List.map_nil, List.append_nil, waits]
  | turn takes rest ih =>
    have bound := takes.bound
    rw [waits] at bound
    rw [ih (bindDue_eq_ok counted bound).1, List.append_assoc]
    rfl

theorem frames_collectValue {flow : Flow} {s t : State} (run : collectValue collect flow s = .ok () t) :
    t.frames = s.frames := by
  unfold collectValue at run
  split at run
  · split at run
    · cases run
      rfl
    · cases run
      rfl
  · cases run
    rfl

/-- After statements on some lines the binding is there if one of them was ahead of the declaration. -/
def Hoist.Shapes (h : Hoist) (lines : List Int) (s : State) : Prop :=
  s.shape? h.header.name = if lines.any h.ahead then some h.binding else none

theorem Hoist.Shapes.any_alive (counted : h.Counted) {line : Int} {t : State}
    (shapes : h.Shapes (lines ++ [line]) t) :
    (t.innermost? h.header.name).any (State.alive { t with line := line }) = h.ahead line := by
  rw [Hoist.Shapes, State.shape?] at shapes
  split at shapes
  · obtain ⟨v, bound, shape⟩ := Option.map_eq_some_iff.1 shapes
    have window : v.shape.window = h.binding.window := by rw [shape]
    rw [bound, Option.any_some]
    exact counted.alive_iff window _
  · next none =>
    rw [List.any_append, List.any_cons, List.any_nil, Bool.or_false, Bool.or_eq_true, not_or] at none
    rw [Option.map_eq_none_iff.1 shapes, Option.any_none]
    exact (Bool.not_eq_true _ ▸ none.2).symm

variable (natives : ∀ f ∈ host.functions, f.KeepsScopes) (counted : ∀ h ∈ hs, h.Counted) (known : h ∈ hs)
  (single : ∀ h' ∈ hs, h'.header.name = h.header.name → h' = h)

include natives counted known single

theorem Hoist.Shapes.due {c : Cursor} {s t : State} {waiting : List Hoist} (shapes : h.Shapes lines s)
    (run : bindDue host (innerAt host n) (hs.map (·.after lines)) c s = .ok waiting t) :
    h.Shapes (lines ++ [c.pos.line]) t := by
  have bound := (bindDue_eq_ok counted run).2 (List.ne_nil_of_mem known)
  have shape := shape?_bindEach natives
    (fun h' member => counted h' (List.mem_filter.1 member).1)
    (fun h' member (named : h'.header.name = h.header.name) =>
      show h'.binding = h.binding by rw [single h' (List.mem_filter.1 member).1 named]) bound
  have due : (hs.filter (·.begins lines c.pos.line)).any (·.header.name = h.header.name) =
      h.begins lines c.pos.line := by
    rw [Bool.eq_iff_iff, List.any_eq_true]
    constructor
    · rintro ⟨h', member, named⟩
      obtain ⟨known', begins⟩ := List.mem_filter.1 member
      rwa [single h' known' (of_decide_eq_true named)] at begins
    · exact fun begins => ⟨h, List.mem_filter.2 ⟨known, begins⟩, decide_eq_true rfl⟩
  have before : State.shape? { s with line := c.pos.line } h.header.name =
      if lines.any h.ahead then some h.binding else none := shapes
  rw [Hoist.Shapes, shape, due, before, List.any_append, List.any_cons, List.any_nil, Bool.or_false, Hoist.begins]
  cases lines.any h.ahead with
  | true => simp
  | false => simp

theorem Hoist.Shapes.takes (shapes : h.Shapes lines p.state) (waits : p.waiting = hs.map (·.after lines))
    (takes : p.Takes host (innerAt host n) collect turn q) (kept : ¬ turn.Declares h.header.name) :
    h.Shapes (lines ++ [turn.line]) q.state := by
  have bound := takes.bound
  rw [waits] at bound
  have arrival := shapes.due natives counted known single bound
  obtain ⟨_, u, collected, looked⟩ := Run.bind_eq_ok.1 takes.looked
  have same := (nested_bodies_keep_scopes natives n u).2.2.2.2.2.shape? looked
  rw [Hoist.Shapes, same, shape?_of_frames (frames_collectValue collected), Classical.not_not.1 kept]
  exact arrival

theorem Hoist.Shapes.reached (shapes : h.Shapes lines p.state) (waits : p.waiting = hs.map (·.after lines))
    (reached : Turns host (innerAt host n) collect p turns q)
    (kept : ∀ turn ∈ turns, ¬ turn.Declares h.header.name) :
    h.Shapes (lines ++ turns.map Turn.line) q.state := by
  induction reached generalizing lines with
  | stay p => rwa [List.map_nil, List.append_nil]
  | turn takes rest ih =>
    obtain ⟨first, later⟩ := List.forall_mem_cons.1 kept
    have waits' := waits ▸ takes.bound
    have next := shapes.takes natives counted known single waits takes first
    rw [List.map_cons, ← List.singleton_append, ← List.append_assoc]
    exact ih next (bindDue_eq_ok counted waits').1 later

end Stages

/-- The statement of a hoisted declaration evaluates nothing: it sets the line and adds records. -/
theorem Stage.Takes.finish_of_hoisted {host : Host} {inner : Inner} {collect : Bool} {p q : Stage} {turn : Turn}
    (takes : p.Takes host inner collect turn q) {header : Header} {value : Expr} {debug : Bool}
    (declares : turn.statement = .declaration header value debug) (hoisted : header.life.isHoisted = true) :
    ∃ records, turn.finish = { turn.arrival with line := turn.line, records := records } := by
  have ran := takes.ran
  rw [runStatement_of_ok takes.read] at ran
  have performed : perform host inner collect turn.cursor.pos.line (.declaration header value debug) =
      Run.debug .scope ("hoisted " ++ header.name ++ " ends at line " ++ toString turn.cursor.pos.line) >>=
        fun _ => pure .next := by
    rw [perform, runDeclaration, if_pos hoisted]
  obtain ⟨flow, t, run, rest⟩ := Run.bind_eq_ok.1 ran
  rw [declares, performed] at run
  obtain ⟨_, u, noted, rest⟩ := Run.bind_eq_ok.1 rest
  have finish : turn.finish = u := by
    injection rest with _ same
    exact same.symm
  rw [finish]
  cases run
  cases noted
  exact ⟨_, rfl⟩

section Window

variable {host : Host} (natives : ∀ f ∈ host.functions, f.KeepsScopes) {n : Nat} {collect : Bool} {c : Cursor}
  {s : State} (first : 0 < c.pos.line) (last : c.pos.line + c.rest.count '\n' ≤ Number.greatestWord)
  {turns : List Turn} {p : Stage} (reached : Turns host (innerAt host n) collect (.start c s) turns p)
  {waiting : List Hoist} {t : State}
  (bound : bindDue host (innerAt host n) p.waiting (Lexical.skipGap p.cursor) p.state = .ok waiting t)
  {h : Hoist} (known : h ∈ hoists c) (single : ∀ h' ∈ hoists c, h'.header.name = h.header.name → h' = h)
  (fresh : s.innermost? h.header.name = none)

include natives first last reached bound known single fresh

/-- If no statement so far has declared the name, its binding is alive on the lines of its window. -/
theorem Hoist.alive_of_not_declares (kept : ∀ turn ∈ turns, ¬ turn.Declares h.header.name) :
    (t.innermost? h.header.name).any (State.alive { t with line := (Lexical.skipGap p.cursor).pos.line }) = true ↔
      h.line + h.header.life.lineCount ≤ (Lexical.skipGap p.cursor).pos.line ∧
        (Lexical.skipGap p.cursor).pos.line < h.line := by
  have counted := Hoist.counted_hoists first last
  have waits := reached.waiting counted (Hoist.map_after_nil c).symm
  have start : h.Shapes [] s := congrArg (Option.map Variable.shape) fresh
  have shapes := start.reached natives counted known single (Hoist.map_after_nil c).symm reached kept
  rw [waits] at bound
  have here := shapes.due natives counted known single bound
  rw [← Hoist.ahead_iff, Hoist.Shapes.any_alive (counted h known) here]

/-- So it is in a body whose statements declare the name only ahead, and assign to it only what is combined with
its value or stored in a property. -/
theorem Hoist.alive_of_statements
    (declarations : ∀ turn ∈ turns, ∀ header value debug, turn.statement = .declaration header value debug →
      header.name = h.header.name → header.life.isHoisted = true)
    (assignments : ∀ turn ∈ turns, ∀ a debug, turn.statement = .assignment a debug → a.name = h.header.name →
      a.accessors ≠ [] ∨ a.mode ≠ .plain) :
    (t.innermost? h.header.name).any (State.alive { t with line := (Lexical.skipGap p.cursor).pos.line }) = true ↔
      h.line + h.header.life.lineCount ≤ (Lexical.skipGap p.cursor).pos.line ∧
        (Lexical.skipGap p.cursor).pos.line < h.line := by
  refine Hoist.alive_of_not_declares natives first last reached bound known single fresh fun turn taken declares => ?_
  obtain ⟨p', q', takes⟩ := reached.takes taken
  obtain ⟨header, value, debug, same, named, unhoisted⟩ | ⟨a, debug, same, named, direct, plain⟩ :=
    takes.declares natives declares
  · exact Bool.eq_false_iff.1 unhoisted (declarations turn taken header value debug same named)
  · exact (assignments turn taken a debug same named).elim (· direct) (· plain)

end Window

/-- Wherever the loop has come to in a body, what it evaluates before the next statement are the initializers
of the hoisted declarations that the line of that statement is ahead of, as no earlier line was; a statement
that is a hoisted declaration evaluates none. Unless the name was bound before or is declared by something
else, the binding of the declaration is alive there exactly if the line is one of those ahead of it, whichever
lines the initializers have moved to. -/
theorem hoisting_window {host : Host} (natives : ∀ f ∈ host.functions, f.KeepsScopes) (n : Nat)
    (collect : Bool) {c : Cursor} (s : State) (first : 0 < c.pos.line)
    (last : c.pos.line + c.rest.count '\n' ≤ Number.greatestWord) {turns : List Turn} {p : Stage}
    (reached : Turns host (innerAt host n) collect (.start c s) turns p) :
    let d := Lexical.skipGap p.cursor
    (∃ fuel, runStatements host (innerAt host n) collect c s =
      statementLoop host (innerAt host n) collect (fuel + 1) p.waiting p.cursor p.state) ∧
    (hoists c ≠ [] → ∃ waiting, bindDue host (innerAt host n) p.waiting d = (do
      modify fun s => { s with line := d.pos.line }
      Run.locate (some d.pos) (do
        bindEach host (innerAt host n) ((hoists c).filter (·.begins (turns.map Turn.line) d.pos.line))
        pure waiting))) ∧
    (∀ turn ∈ turns, ∀ header value debug, turn.statement = .declaration header value debug →
      header.life.isHoisted = true →
      ∃ records, turn.finish = { turn.arrival with line := turn.line, records := records }) ∧
    ∀ waiting t, bindDue host (innerAt host n) p.waiting d p.state = .ok waiting t →
      ∀ h ∈ hoists c, (∀ h' ∈ hoists c, h'.header.name = h.header.name → h' = h) →
        s.innermost? h.header.name = none → (∀ turn ∈ turns, ¬ turn.Declares h.header.name) →
        ((t.innermost? h.header.name).any (State.alive { t with line := d.pos.line }) = true ↔
          h.line + h.header.life.lineCount ≤ d.pos.line ∧ d.pos.line < h.line) := by
  intro d
  have counted := Hoist.counted_hoists first last
  have waits := reached.waiting counted (Hoist.map_after_nil c).symm
  rw [List.nil_append] at waits
  refine ⟨?_, fun found => ?_, ?_, ?_⟩
  · obtain ⟨fuel, -, goes⟩ := runStatements_of_turns reached
    exact ⟨fuel, goes⟩
  · rw [waits]
    exact ⟨_, bindDue_after counted found _ d⟩
  · intro turn taken header value debug declares hoisted
    obtain ⟨p', q', takes⟩ := reached.takes taken
    exact takes.finish_of_hoisted declares hoisted
  · intro waiting t bound h known single fresh kept
    exact Hoist.alive_of_not_declares natives first last reached bound known single fresh kept

/-- An initializer that leaves the program on the line of the function that it calls: the binding is there
on the line of the statement that comes next. -/
theorem hoisting_window_moved :
    let host : Host := ⟨#[], false⟩
    let f : Function := ⟨"f", [], .script " return 5n! ".toList { line := 9 } true, 9⟩
    let s : State := { frames := [{ funcs := [⟨0, f⟩] }] }
    let c : Cursor := .start "1n!\na!\nvar var a<-1> = f!" ""
    (∀ f ∈ host.functions, f.KeepsScopes) ∧ c.pos.line + c.rest.count '\n' ≤ Number.greatestWord ∧
      ∃ turn p waiting t h, Turns host (innerAt host 2) false (.start c s) [turn] p ∧
        bindDue host (innerAt host 2) p.waiting (Lexical.skipGap p.cursor) p.state = .ok waiting t ∧
        t.line = 9 ∧ hoists c = [h] ∧ ¬ turn.Declares h.header.name ∧
        (t.innermost? h.header.name).any (State.alive { t with line := 2 }) = true := by
  intro host f s c
  have natives : ∀ f ∈ host.functions, f.KeepsScopes := fun f member => absurd member (Array.not_mem_empty f)
  have last : c.pos.line + c.rest.count '\n' ≤ Number.greatestWord := by decide
  have checked : (((Stage.start c s).next? host (innerAt host 2) false).any fun r =>
      (r.1.arrival.shape? "a").isNone && (r.1.finish.shape? "a").isNone &&
        (r.2.next? host (innerAt host 2) false).any fun r => r.1.line == 2 && r.1.arrival.line == 9) = true := by
    decide +kernel
  have found : (hoists c).map (fun h => (h.header.name, h.line, h.line + h.header.life.lineCount)) =
      [("a", 3, 2)] := by decide +kernel
  -- the window opens on the line of the second turn, which binds what is due there
  obtain ⟨⟨turn, p⟩, first, checked⟩ := (Option.any_eq_true _ _).1 checked
  rw [Bool.and_eq_true, Bool.and_eq_true, Option.isNone_iff_eq_none, Option.isNone_iff_eq_none] at checked
  obtain ⟨⟨before, after⟩, checked⟩ := checked
  obtain ⟨⟨second, q⟩, next, checked⟩ := (Option.any_eq_true _ _).1 checked
  rw [Bool.and_eq_true, beq_iff_eq, beq_iff_eq] at checked
  obtain ⟨here, moved⟩ := checked
  have reached : Turns host (innerAt host 2) false (.start c s) [turn] p := .turn (takes_of_next? first) (.stay p)
  have takes := takes_of_next? next
  have due := takes.bound
  rw [← takes.here] at due
  obtain ⟨h, single, same⟩ := List.map_eq_singleton_iff.1 found
  obtain ⟨name, start, finish⟩ : h.header.name = "a" ∧ h.line = 3 ∧ h.line + h.header.life.lineCount = 2 := by
    simpa only [Prod.mk.injEq] using same
  have kept : ¬ turn.Declares h.header.name := by
    rw [name, Turn.Declares, before, after]
    exact fun other => other rfl
  have window := (hoisting_window natives 2 false s (by decide) last reached).2.2.2 q.waiting second.arrival due h
    (by rw [single]; exact List.mem_singleton_self h)
    (fun h' known _ => by rwa [single, List.mem_singleton] at known)
    (by rw [name]; decide) (List.forall_mem_singleton.2 kept)
  rw [takes.here, ← Turn.line, here] at window
  exact ⟨natives, last, turn, p, q.waiting, second.arrival, h, reached, due, moved, single, kept,
    window.2 ⟨by omega, by omega⟩⟩

end Gapscript
