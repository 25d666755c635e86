import Gapscript.Proofs.Run.Lines
import Gapscript.Proofs.Run.Lockstep
import Gapscript.Proofs.Run.Positions
import Gapscript.Proofs.Session.Reachable

/-!
# Where a text begins

Lines and offsets count from the beginning of a text, so after some empty lines every place in it is
further down by as many lines and bytes. A program cannot tell: places are only kept and compared, and
the window of a life time is moved along with the line it was declared on. That holds of windows that
begin before the first line as well, since their bounds are compared like any other, and of windows that
end beyond the last line that can be counted, since a bound that wraps is none.

The fresh state is on the first line in both runs, but the first statement sets the line before
anything looks at it.
-/

namespace Gapscript

/-! ## Windows further down -/

/-- The window of a life time that is declared further down opens and closes further down, as long as
lines can be counted. -/
theorem Window.expired_lower {life : LifeTime} (fits : life.Fits) {k length line : Int}
    (counted : 0 ≤ k ∧ length + k < Number.greatestWord) (hl : 1 ≤ line ∧ line ≤ length + 1) {m : Int}
    (hm : 1 ≤ m ∧ m ≤ length + 1) (now now' : Int) :
    (life.window (line + k) now).expired (m + k) now' = (life.window line now).expired m now' := by
  cases life with
  | forever | seconds n => rfl
  | lines n =>
    obtain ⟨least, greatest⟩ := fits
    rcases Int.lt_trichotomy n 0 with hn | rfl | hn
    · have window (line : Int) (within : Number.leastWord ≤ line + n ∧ line + n ≤ Number.greatestWord) :
          (LifeTime.lines n).window line now = { firstLine := line + n, endLine := line } := by
        unfold LifeTime.window
        dsimp only
        rw [if_neg (by omega), if_pos hn, Number.word_of_within within.1 within.2]
      rw [window line (by omega), window (line + k) (by omega)]
      have below : m + k < line + k + n ↔ m < line + n := by omega
      have apart : ((line + k != 0) = true) ∧ ((line != 0) = true) := by
        rw [bne_iff_ne, bne_iff_ne]
        omega
      simp [expired, below, apart]
    · rfl
    · have beyond {line : Int} (hl : Number.CountsLines line) (h : ¬ line + n ≤ Number.greatestWord) (m : Int) :=
        expired_lines_of_beyond ⟨hn, greatest⟩ hl (by omega) now m now'
      have within {line : Int} (hl : 0 < line) (h : line + n ≤ Number.greatestWord) (m : Int) :=
        expired_lines hn hl h now m now'
      by_cases far : line + n ≤ Number.greatestWord
      · rw [within (by omega) far]
        by_cases farther : line + k + n ≤ Number.greatestWord
        · rw [within (by omega) farther]
          exact decide_eq_decide.2 (by omega)
        · rw [beyond ⟨by omega, by omega⟩ farther]
          exact (decide_eq_false (by omega)).symm
      · rw [beyond ⟨by omega, by omega⟩ far, beyond ⟨by omega, by omega⟩ (by omega)]

namespace Bridge

/-- Two runs of one text of some length from the global frame, the second with the text `k` lines and `k`
bytes further down. -/
def lowered (k length : Nat) (counted : (length + k : Int) < Number.greatestWord) : Bridge where
  shift := ⟨k, k⟩
  base := 0
  Piece c := 1 ≤ c.pos.line ∧ c.pos.line + c.rest.length ≤ length + 1
  Line line := 1 ≤ line ∧ line ≤ length + 1
  Windows w w' := ∀ line now, 1 ≤ line ∧ line ≤ (length + 1 : Int) → w'.expired (line + k) now = w.expired line now
  Limits := Eq
  Deep _ := True
  Excused _ := False
  includes {c d} piece inside := by
    obtain ⟨p, q, hp, moves⟩ := inside.locates
    have line := moves.line
    have count : p.count '\n' ≤ p.length := List.count_le_length
    rw [hp, List.length_append, List.length_append] at piece
    omega
  shorter piece short := ⟨piece.1, by have := piece.2; dsimp only; omega⟩
  line piece := ⟨piece.1, by have := piece.2; omega⟩
  expired windows hl now := windows _ now hl
  window fits hl now _ now' hm := Window.expired_lower fits ⟨Int.natCast_nonneg k, counted⟩ hl hm now now'
  visible {n line} hn fits hl := by
    obtain ⟨least, -⟩ := fits
    dsimp only
    rw [Number.word_of_within (n := line + n) (by omega) (by omega),
      Number.word_of_within (n := line + k + n) (by omega) (by omega)]
    omega
  enters same free := by
    subst same
    exact ⟨free, trivial⟩
  refuses same _ := .inl same.symm
  located _ excused := excused

end Bridge

/-- A native function that does the same wherever the text of its caller begins: it shows nothing of places
and lines. -/
def HostFunction.Placeless (f : HostFunction) : Prop :=
  ∀ k length counted, (Bridge.lowered k length counted).Respects f

/-! ## The standard library -/

namespace Bridge

variable {B : Bridge} {k : Nat} {s s' : State} {call : Invocation}

theorem first_invocation (d : Shift) (call : Invocation) : (d.invocation call).first = d.value call.first := by
  obtain ⟨_ | ⟨v, args⟩, pos⟩ := call <;> rfl

theorem fault_invocation (d : Shift) (call : Invocation) (message : String) :
    (d.invocation call).fault message = d.error (call.fault message) := rfl

theorem Beside.write (h : B.Beside k s s') (text : String) : B.Beside k (s.write text) (s'.write text) :=
  { h with output := congrArg (· ++ text) h.output }

theorem abreast_wait (hs : B.Beside k s s') (passed : Int) :
    B.Abreast k s s' id (fun _ => True)
      (modify fun s => if s.ticking then { s with now := s.now + passed } else s : Run PUnit)
      (modify fun s => if s.ticking then { s with now := s.now + passed } else s) := by
  refine abreast_modify ?_
  have same := hs.ticking
  by_cases ticking : s.ticking
  · rw [if_pos ticking, if_pos (same.trans ticking)]
    exact { hs with now := congrArg (· + passed) hs.now }
  · rw [if_neg ticking, if_neg (same ▸ ticking)]
    exact hs

theorem respects_print : B.Respects Library.print := by
  intro k s s' call hs _
  unfold Library.print
  dsimp only
  rw [first_invocation]
  refine (abreast_display hs call.first).bind fun text t t' _ ht => ?_
  exact (abreast_modify (ht.write (text ++ "\n"))).bind fun _ u u' _ hu => abreast_pure hu rfl trivial

theorem respects_emit : B.Respects Library.emit := by
  intro k s s' call hs given
  unfold Library.emit
  dsimp only
  rw [first_invocation]
  have first : B.source.Holds call.first := by
    obtain ⟨_ | ⟨v, args⟩, pos⟩ := call
    · trivial
    · exact given v List.mem_cons_self
  refine (abreast_display hs call.first).bind fun text t t' _ ht => ?_
  exact (abreast_modify (ht.write text)).bind fun _ u u' _ hu => abreast_pure hu rfl first

theorem respects_assert : B.Respects Library.assert := by
  intro k s s' call hs _
  unfold Library.assert
  dsimp only
  rw [first_invocation, Shift.toBoolean_value]
  refine abreast_ite (fun _ => abreast_pure hs rfl trivial) fun _ => Abreast.get_bind (abreast_throw hs ?_)
  rw [hs.heap, Shift.describe_heap]
  rfl

theorem respects_typeof : B.Respects Library.typeof := by
  intro k s s' call hs _
  unfold Library.typeof
  dsimp only
  rw [first_invocation, Shift.typeName_value]
  exact abreast_pure hs rfl trivial

theorem respects_sleep : B.Respects Library.sleep := by
  intro k s s' call hs _
  unfold Library.sleep
  dsimp only
  rw [first_invocation, Shift.toNumber_value]
  refine abreast_ite (fun _ => ?_) fun _ => ?_
  · refine (abreast_display hs call.first).bind fun text t t' _ ht => ?_
    exact abreast_throw ht (fault_invocation B.shift call _)
  · refine (abreast_debug hs _ (.same _)).bind fun _ t t' _ ht => ?_
    exact (abreast_wait ht _).bind fun _ u u' _ hu => abreast_pure hu rfl trivial

theorem respects_symbol : B.Respects Library.symbol := by
  intro k s s' call hs _
  unfold Library.symbol
  dsimp only
  rw [first_invocation]
  refine (abreast_display hs call.first).bind fun text t t' _ ht => ?_
  refine abreast_modifyGet ?_ { ht with identities := congrArg (· + 1) ht.identities } trivial
  unfold State.newSymbol
  rw [ht.identities]
  rfl

theorem respects_standard : ∀ f ∈ Library.standard, B.Respects f := by
  simp only [Library.standard, List.forall_mem_cons]
  exact ⟨respects_print, respects_assert, respects_typeof, respects_sleep, respects_symbol, List.forall_mem_nil _⟩

end Bridge

/-! ## Lines before a text -/

section Newlines

open Lexical

theorem gap_newline (t : Text) : gap ('\n' :: t) = gap t + 1 := rfl

theorem skipGap_newline (t : Text) (p : Position) : skipGap ⟨'\n' :: t, p⟩ = skipGap ⟨t, p.after '\n'⟩ := by
  unfold skipGap
  rw [gap_newline, Cursor.skip_succ]
  rfl

/-- White space that has been measured is passed over, and white space that has not is measured. -/
theorem hoistsFrom_gap (depth : Nat) (p : Position) (t : Text) :
    hoistsFrom depth true (gap t) p t = hoistsFrom depth true 0 p t := by
  cases t with
  | nil => rw [hoistsFrom, hoistsFrom]
  | cons x xs =>
    cases hg : gap (x :: xs) with
    | zero => rfl
    | succ n =>
      rw [hoistsFrom, hoistsFrom, hg]
      rfl

theorem hoists_newline (t : Text) (p : Position) : hoists ⟨'\n' :: t, p⟩ = hoists ⟨t, p.after '\n'⟩ := by
  change hoistsFrom 0 true 0 p ('\n' :: t) = hoistsFrom 0 true 0 (p.after '\n') t
  rw [← hoistsFrom_gap 0 (p.after '\n') t, hoistsFrom, gap_newline]
  rfl

variable (k : Nat)

/-- The text some lines further down. -/
def newlines : Text := List.replicate k '\n'

theorem skipGap_newlines (t : Text) (p : Position) :
    skipGap ⟨newlines k ++ t, p⟩ = skipGap ⟨t, p.afterText (newlines k)⟩ := by
  induction k generalizing p with
  | zero => rfl
  | succ k ih => exact (skipGap_newline (newlines k ++ t) p).trans (ih (p.after '\n'))

theorem hoists_newlines (t : Text) (p : Position) :
    hoists ⟨newlines k ++ t, p⟩ = hoists ⟨t, p.afterText (newlines k)⟩ := by
  induction k generalizing p with
  | zero => rfl
  | succ k ih => exact (hoists_newline (newlines k ++ t) p).trans (ih (p.after '\n'))

/-- From the beginning of a line, the place some lines further down is the place, shifted. -/
theorem afterText_newlines {p : Position} (h : p.column = 1) :
    p.afterText (newlines k) = (⟨k, k⟩ : Shift).position p := by
  induction k generalizing p with
  | zero =>
    change p = { p with line := p.line + 0, offset := p.offset + 0 }
    rw [Int.add_zero, Int.add_zero]
  | succ k ih =>
    change (p.after '\n').afterText (newlines k) = _
    rw [ih rfl]
    change ({ p with line := p.line + 1 + k, column := 1, offset := p.offset + 1 + k } : Position) =
      { p with line := p.line + (k + 1 : Nat), offset := p.offset + (k + 1 : Nat) }
    rw [h]
    congr 1 <;> omega

end Newlines

section Loop

variable {host : Host} {inner : Inner} {collect : Bool} {fuel : Nat} {hs : List Hoist} {c : Cursor} {s : State}

/-- The statement loop begins where the white space before the first statement ends. -/
theorem statementLoop_of_skipGap {c' : Cursor} (same : Lexical.skipGap c = Lexical.skipGap c') :
    statementLoop host inner collect (fuel + 1) hs c = statementLoop host inner collect (fuel + 1) hs c' := by
  rw [statementLoop, statementLoop, same]

/-- A text without a statement changes nothing. -/
theorem statementLoop_of_blank (blank : (Lexical.skipGap c).atEnd = true) :
    statementLoop host inner collect (fuel + 1) hs c s = .ok none s := by
  rw [statementLoop]
  dsimp only
  rw [if_pos blank]
  rfl

/-- The first statement of a text sets the line, whatever it was before. -/
theorem statementLoop_of_line (written : ¬ (Lexical.skipGap c).atEnd = true) (line : Int) :
    statementLoop host inner collect (fuel + 1) hs c { s with line := line } =
      statementLoop host inner collect (fuel + 1) hs c s := by
  rw [statementLoop]
  dsimp only
  rw [if_neg written]
  cases hs <;> rfl

end Loop

/-- A text is run some lines further down as the text itself is run there. -/
theorem runSource_newlines {host : Host} (k : Nat) {c : Cursor} (column : c.pos.column = 1) (s : State) :
    runSource host ⟨newlines k ++ c.rest, c.pos⟩ s =
      statementLoop host (innerAt host s.room) true ((newlines k ++ c.rest).length + 1)
        ((hoists c).map (⟨k, k⟩ : Shift).hoist) ((⟨k, k⟩ : Shift).cursor c) s := by
  let d : Shift := ⟨k, k⟩
  have below : (⟨c.rest, c.pos.afterText (newlines k)⟩ : Cursor) = d.cursor c :=
    congrArg (Cursor.mk c.rest) (afterText_newlines k column)
  have begins : Lexical.skipGap ⟨newlines k ++ c.rest, c.pos⟩ = Lexical.skipGap (d.cursor c) :=
    below ▸ skipGap_newlines k c.rest c.pos
  have declared : hoists ⟨newlines k ++ c.rest, c.pos⟩ = (hoists c).map d.hoist := by
    rw [hoists_newlines, below, Shift.hoists_cursor]
  change statementLoop host (innerAt host s.room) true _ (hoists ⟨newlines k ++ c.rest, c.pos⟩) _ s = _
  rw [declared, statementLoop_of_skipGap begins]

namespace Bridge

/-- The states are beside each other but for the lines they are on. -/
def Alike (B : Bridge) (k : Nat) (s s' : State) : Prop :=
  ∃ line line', B.Beside k { s with line := line } { s' with line := line' }

theorem Beside.alike {B : Bridge} {k : Nat} {s s' : State} (h : B.Beside k s s') : B.Alike k s s' :=
  ⟨s.line, s'.line, h⟩

/-- The state holds nothing from a text: it is beside itself but for the line. -/
def Blank (B : Bridge) (s : State) : Prop := B.Beside 0 s { s with line := s.line + B.shift.lines }

/-- Both runs end alike: the results and the failures of the second are those of the first, shifted. -/
inductive Ends (B : Bridge) (k : Nat) :
    EStateM.Result Error State (Option Value) → EStateM.Result Error State (Option Value) → Prop
  | ok (r : Option Value) {t t' : State} (alike : B.Alike k t t') :
    Ends B k (.ok r t) (.ok (r.map B.shift.value) t')
  | error (e : Error) {t t' : State} (alike : B.Alike k t t') :
    Ends B k (.error e t) (.error (B.shift.error e) t')

theorem ends_runSource {host : Host} {k length : Nat} {counted : (length + k : Int) < Number.greatestWord}
    (natives : ∀ f ∈ host.functions, (lowered k length counted).Respects f) {s : State}
    (hs : (lowered k length counted).Blank s) {c : Cursor} (within : c.rest.length ≤ length)
    (first : c.pos.line = 1) (column : c.pos.column = 1) :
    (lowered k length counted).Ends 0 (runSource host c s)
      (runSource host ⟨newlines k ++ c.rest, c.pos⟩ s) := by
  let B := lowered k length counted
  rw [runSource_newlines k column]
  change B.Ends 0 (statementLoop host (innerAt host s.room) true (c.rest.length + 1) (hoists c) c s)
    (statementLoop host (innerAt host s.room) true ((newlines k ++ c.rest).length + 1)
      ((hoists c).map B.shift.hoist) (B.shift.cursor c) s)
  by_cases blank : (Lexical.skipGap c).atEnd = true
  · have below : (Lexical.skipGap (B.shift.cursor c)).atEnd = true := by
      rw [Shift.skipGap_cursor]
      exact blank
    rw [statementLoop_of_blank blank, statementLoop_of_blank below]
    exact .ok none ⟨s.line, s.line + k, hs⟩
  · have below : ¬ (Lexical.skipGap (B.shift.cursor c)).atEnd = true := by
      rw [Shift.skipGap_cursor]
      exact blank
    have piece : B.Piece c := ⟨Int.le_of_eq first.symm, by rw [first]; omega⟩
    have together := together_innerAt natives (.inl rfl : B.Spacious 0 s.room s.room)
    have room : c.rest.length < (newlines k ++ c.rest).length + 1 := by
      rw [List.length_append]
      omega
    have run := abreast_statementLoop together hs true (sourced_hoists piece) piece
      (Nat.lt_succ_self _) room
    -- The first statement sets the line, so the second run may as well start on the line it started on.
    cases run.congr rfl (statementLoop_of_line below (s.line + k)).symm with
    | ok r t t' ran ran' beside =>
      rw [ran, ran']
      exact .ok r beside.alike
    | error e t t' ran ran' beside =>
      rw [ran, ran']
      exact .error e beside.alike
    | excused e t ran tall excused => exact excused.elim

/-! ## Fresh interpreters -/

variable {B : Bridge}

theorem blank_register {i : Interpreter} (h : B.Blank i.state) (f : HostFunction) :
    B.Blank (i.register f).state := by
  let code : Function := { name := f.name, body := .native i.functions.size f.arity }
  obtain ⟨-, made⟩ := Beside.newFunction h code
  have native : B.source.Holds (.function (i.state.newFunction code).1) := trivial
  let registered : Record :=
    { level := .debug, category := .stdlib, message := "registered " ++ f.name ++ "/" ++ toString f.arity }
  have same : B.shift.Recorded registered registered := ⟨rfl, rfl, .same _, rfl, rfl⟩
  have recorded := (made.define native).record same
  obtain ⟨settings, log, functions, natives, ⟨frames⟩, typed⟩ := i
  cases frames with
  | nil => exact recorded
  | cons g gs => exact recorded

theorem blank_new (settings : Settings) (ticking : Bool) (here : B.Line 1) (base : B.base = 0)
    (limits : ∀ limit, B.Limits limit limit) : B.Blank (Interpreter.new settings ticking).state := by
  refine List.foldlRecOn (motive := fun i : Interpreter => B.Blank i.state) Library.standard
    Interpreter.register ?_ fun i hi f _ => blank_register hi f
  have records : List.Forall₂ B.shift.Recorded (Interpreter.logOf settings).2.toList
      (Interpreter.logOf settings).2.toList := by
    unfold Interpreter.logOf
    dsimp only
    split
    · exact .nil
    · exact .nil
    · exact .cons ⟨rfl, rfl, .same _, rfl, rfl⟩ .nil
  exact {
    depth := rfl
    above := Nat.le_of_eq base
    height := Nat.zero_le _
    frames := .cons framed_empty .nil
    depth' := rfl
    limits := limits _
    line := rfl
    here := here
    now := rfl
    ticking := rfl
    watches := rfl
    watched := fun _ hw => nomatch hw
    heap := (congrArg Heap.mk Array.map_empty).symm
    filled := fun ref o _ h => nomatch (Array.getElem?_empty.symm.trans h)
    identities := rfl
    hoistedFunctions := rfl
    produced := Array.map_empty.symm
    output := rfl
    records := records }

end Bridge

namespace Interpreter

variable {i : Interpreter} {source file : String} {t : State}

theorem evaluate_of_ok {r : Option Value} (ran : runSource (i.host false) (Cursor.start source file)
      { i.state with produced := #[] } = .ok r t) :
    i.evaluate source file =
      ({ values := t.produced.toList }, { i with state := { t with produced := #[] } }) := by
  rw [evaluate]
  exact collecting_of_ok (Run.bind_of_ok ran)

theorem evaluate_of_error {e : Error} (ran : runSource (i.host false) (Cursor.start source file)
      { i.state with produced := #[] } = .error e t) :
    i.evaluate source file =
      ({ values := t.produced.toList, error := some e }, { i with state := { t with produced := #[] } }) := by
  rw [evaluate]
  exact collecting_of_error (Run.bind_of_error ran)

end Interpreter

theorem Bridge.Alike.collected {B : Bridge} {k : Nat} {s s' : State} (h : B.Alike k s s') :
    s'.produced.toList = s.produced.toList.map B.shift.value ∧ s'.output = s.output ∧
      List.Forall₂ B.Framed s.frames s'.frames ∧ B.Alike k { s with produced := #[] } { s' with produced := #[] } := by
  obtain ⟨line, line', beside⟩ := h
  refine ⟨?_, beside.output, beside.frames, line, line', { beside with produced := Array.map_empty.symm }⟩
  rw [← Array.toList_map]
  exact congrArg Array.toList beside.produced

/-- Meaning does not depend on where a text begins. In a fresh interpreter, a text after some empty lines gives
the values and the failure that the text itself gives, shifted, writes the same output, and leaves the same
bindings, shifted, and the same state but for the line it ends on. -/
theorem evaluate_lowered (settings : Settings) (ticking : Bool) {functions : List HostFunction}
    (placeless : ∀ f ∈ functions, f.Placeless) (source file : String) (k : Nat)
    (counted : (source.length + k : Int) < Number.greatestWord) :
    let i := functions.foldl Interpreter.register (Interpreter.new settings ticking)
    let d : Shift := ⟨k, k⟩
    let B := Bridge.lowered k source.length counted
    let answer := i.evaluate source file
    let answer' := i.evaluate (String.ofList (newlines k) ++ source) file
    answer'.1.values = answer.1.values.map d.value ∧
      answer'.1.error = answer.1.error.map d.error ∧
      answer'.2.state.output = answer.2.state.output ∧
      List.Forall₂ B.Framed answer.2.state.frames answer'.2.state.frames ∧
      B.Alike 0 answer.2.state answer'.2.state := by
  intro i d B answer answer'
  have idle : i.Idle B.Respects :=
    List.foldlRecOn functions Interpreter.register
      (Interpreter.idle_new Bridge.respects_standard settings ticking)
      fun i hi f hf => hi.register (placeless f hf k source.length counted)
  have blank : B.Blank i.state :=
    List.foldlRecOn (motive := fun i : Interpreter => B.Blank i.state) functions Interpreter.register
      (Bridge.blank_new settings ticking ⟨Int.le_refl 1, by omega⟩ rfl fun _ => rfl)
      fun i hi f _ => Bridge.blank_register hi f
  have start : B.Blank { i.state with produced := #[] } := { blank with produced := Array.map_empty.symm }
  have within : (Cursor.start source file).rest.length ≤ source.length := Nat.le_of_eq String.length_toList
  have natives : ∀ f ∈ (i.host false).functions, B.Respects f := idle.natives
  have ends := Bridge.ends_runSource natives start within rfl rfl
  have below : Cursor.start (String.ofList (newlines k) ++ source) file =
      ⟨newlines k ++ source.toList, (Cursor.start source file).pos⟩ := by
    unfold Cursor.start
    rw [String.toList_append, String.toList_ofList]
  change B.Ends 0 _ (runSource (i.host false) ⟨newlines k ++ source.toList, (Cursor.start source file).pos⟩ _) at ends
  rw [← below] at ends
  generalize hr : runSource (i.host false) (Cursor.start source file) { i.state with produced := #[] } = r at ends
  generalize hr' : runSource (i.host false) (Cursor.start (String.ofList (newlines k) ++ source) file)
    { i.state with produced := #[] } = r' at ends
  cases ends with
  | ok v alike =>
    obtain ⟨values, output, frames, after⟩ := alike.collected
    have first : answer = _ := Interpreter.evaluate_of_ok hr
    have second : answer' = _ := Interpreter.evaluate_of_ok hr'
    rw [first, second]
    exact ⟨values, rfl, output, frames, after⟩
  | error e alike =>
    obtain ⟨values, output, frames, after⟩ := alike.collected
    have first : answer = _ := Interpreter.evaluate_of_error hr
    have second : answer' = _ := Interpreter.evaluate_of_error hr'
    rw [first, second]
    exact ⟨values, rfl, output, frames, after⟩

/-- A declaration whose life begins before the first line is there on the same statements further down, and
the failure of the last statement is found further down. -/
theorem evaluate_lowered_hoisted :
    let i := [Library.emit].foldl Interpreter.register (Interpreter.new {} false)
    let source := "emit(a)!\nvar var a <-5> = 7n!\n1n + true!\n"
    let failure (line offset : Int) : Error :=
      .runtime ⟨.type (.mixedBigint "boolean" .add), some { line := line, offset := offset }⟩
    let answer := i.evaluate source ""
    let answer' := i.evaluate (String.ofList (newlines 3) ++ source) ""
    (answer.2.state.output = "7" ∧ answer.1.error = some (failure 3 30)) ∧
      answer'.2.state.output = "7" ∧ answer'.1.error = some (failure 6 33) := by
  intro i source failure answer answer'
  have emits : ∀ f ∈ [Library.emit], f.Placeless :=
    List.forall_mem_singleton.2 fun _ _ _ => Bridge.respects_emit
  have printed : answer.2.state.output = "7" := by decide +kernel
  have failed : answer.1.error = some (failure 3 30) := by decide +kernel
  obtain ⟨-, error, output, -⟩ := evaluate_lowered {} false emits source "" 3 (by decide +kernel)
  refine ⟨⟨printed, failed⟩, output.trans printed, error.trans ?_⟩
  exact congrArg (Option.map (Shift.error ⟨3, 3⟩)) failed

end Gapscript
