import Gapscript.Proofs.Run.Confined
import Gapscript.Proofs.Run.Positions

/-!
# The line a run is on

The state has one current line, which every statement sets to its own, those of the bodies that it
starts included, and which nothing sets back. `Course.lines` is the course of runs that stay on
certain lines: a run keeps it if it starts only bodies that lie on these lines. The second part says
which lines the window of a life time covers.
-/

namespace Gapscript

/-! ## Runs that stay on certain lines -/

/-- A native function that leaves the current line as it is when it is called in a balanced state. -/
def HostFunction.KeepsLine (f : HostFunction) : Prop :=
  f.Obeys State.Balanced (fun s t => t.line = s.line) fun _ => True

/-- A balanced state on one of certain lines. -/
structure State.On (Line : Int → Prop) (s : State) : Prop where
  balanced : s.Balanced
  line : Line s.line

theorem line_passive {host : Host} (natives : ∀ f ∈ host.functions, f.KeepsLine) {s t : State}
    (hs : s.Balanced) (h : Passive host s t) : t.line = s.line := by
  cases h with
  | native f call known => exact (natives f known call s hs).1
  | _ => rfl

namespace Course

variable {host : Host} (natives : ∀ f ∈ host.functions, f.KeepsFrames ∧ f.KeepsLine) (Line : Int → Prop)

include natives in
theorem trail_step {s t : State} (hs : s.On Line) (h : Step host s t) (hl : Line t.line) :
    Trail host (State.On Line) s t := by
  have same := sameStack_step (fun f hf => (natives f hf).1) hs.balanced h
  exact .step hs h (.stay ⟨same.balanced hs.balanced, hl⟩)

/-- From a balanced state on one of the lines, a run stays among such states. -/
def lines : Course host where
  Pre := State.On Line
  Change := Trail host (State.On Line)
  Raised _ := True
  Line := Line
  refl := .stay
  trans := .trans
  stable _ h := h.finish
  line hs hl := trail_step natives Line hs (.line _ _) hl
  step hs h same := trail_step natives Line hs h (same ▸ hs.line)
  passive hs h := by
    have same := line_passive (fun f hf => (natives f hf).2) hs.balanced h
    exact trail_step natives Line hs h.toStep (same ▸ hs.line)
  ordinary _ := trivial
  located _ _ := trivial
  native _ _ _ _ _ _ := trivial

theorem surrounds_lines : (lines natives Line).Surrounds True (lines natives Line).toPact := by
  -- A frame is left on the line that the run in it ended on.
  have left {s u v : State} (hs : s.On Line) (entered : s.push = .ok u)
      (inside : Trail host (State.On Line) u v) :
      ∃ w, v.pop? = some w ∧ w.On Line := by
    have stack := (inside.mono State.On.balanced).sameStack fun f hf => (natives f hf).1
    obtain ⟨w, hw, same⟩ := State.pop_of_push entered stack
    refine ⟨w, hw, same.balanced hs.balanced, ?_⟩
    have line : w.line = v.line := by
      unfold State.pop? at hw
      split at hw
      · cases hw
        rfl
      · cases hw
    exact line ▸ inside.finish.line
  constructor
  · intro s u hs entered
    have line : u.line = s.line := by rw [(State.push_eq_ok entered).2]
    exact ⟨hs.balanced.push entered, line ▸ hs.line⟩
  · intro s u v hs entered inside
    obtain ⟨w, hw, there⟩ := left hs entered inside
    rw [Run.leave, hw]
    exact .frame hs entered inside hw (.stay there)
  · exact id
  · intro _ s u v hs entered inside
    obtain ⟨w, hw, -⟩ := left hs entered inside
    rw [hw]
    rfl

variable {natives Line}

theorem admits_lines {c : Cursor} (hc : Line c.pos.line) :
    (lines natives Line).Admits host.endCloses c :=
  ⟨hc, fun _ => rfl⟩

theorem passable_lines {c : Cursor} (hc : ∀ d, c.Reaches d → Line d.pos.line) :
    (lines natives Line).Passable host.endCloses c :=
  passable_of_reaches fun d hd => admits_lines (hc d hd)

theorem nests_lines {permitted : Cursor → Bool}
    (within : ∀ c, permitted c = true → ∀ d, c.Reaches d → Line d.pos.line) (n : Nat) :
    (lines natives Line).Nests True (confinedAt host permitted n) (innerAt host n) :=
  nests_confinedAt (surrounds_lines natives Line) trivial (fun c hc => passable_lines (within c hc)) n

end Course

/-! ## The lines of a text -/

theorem Cursor.Reaches.line_le {c d : Cursor} (h : c.Reaches d) : c.pos.line ≤ d.pos.line := by
  obtain ⟨p, -, moves⟩ := h.movesTo
  rw [moves.line]
  omega

/-- The whole text is on a line. -/
def Cursor.onLine (line : Int) (c : Cursor) : Bool := c.pos.line == line && !c.rest.contains '\n'

theorem Cursor.Reaches.line_eq {c d : Cursor} (h : c.Reaches d) {line : Int}
    (hc : c.onLine line = true) : d.pos.line = line := by
  unfold onLine at hc
  rw [Bool.and_eq_true, beq_iff_eq, Bool.not_eq_true', List.contains_eq_mem,
    decide_eq_false_iff_not] at hc
  obtain ⟨here, single⟩ := hc
  obtain ⟨p, split, moves⟩ := h.movesTo
  have none : p.count '\n' = 0 := by
    refine List.count_eq_zero.2 fun hp => single ?_
    rw [split]
    exact List.mem_append_left _ hp
  rw [moves.line, none, here]
  omega

/-! ## The lines of a life time -/

/-- A number of lines, or the number of a line. -/
def Number.CountsLines (n : Int) : Prop := 0 < n ∧ n ≤ greatestWord

instance (n : Int) : Decidable (Number.CountsLines n) := inferInstanceAs (Decidable (_ ∧ _))

theorem Number.word_of_within {n : Int} (least : leastWord ≤ n) (greatest : n ≤ greatestWord) :
    word n = n := by
  unfold leastWord at least
  unfold greatestWord at greatest
  change Int.bmod n 18446744073709551616 = n
  rw [Int.bmod_eq_of_le] <;> omega

/-- A sum of two words that is too large wraps once. -/
theorem Number.word_of_beyond {n : Int} (beyond : greatestWord < n) (twice : n ≤ 2 * greatestWord) :
    word n = n - 18446744073709551616 := by
  unfold greatestWord at beyond twice
  change Int.bmod n 18446744073709551616 = n - 18446744073709551616
  unfold Int.bmod
  dsimp only
  split <;> omega

namespace Window

theorem window_lines {n : Int} (hn : 0 < n) (line now : Int) :
    (LifeTime.lines n).window line now = { lastLine := Number.word (line + n) } := by
  unfold LifeTime.window
  exact if_pos hn

/-- A life of `n` lines is over exactly after the line `n` lines further on. -/
theorem expired_lines {n line : Int} (hn : 0 < n) (hl : 0 < line)
    (fits : line + n ≤ Number.greatestWord) (now m now' : Int) :
    ((LifeTime.lines n).window line now).expired m now' = decide (line + n < m) := by
  rw [window_lines hn, Number.word_of_within (by unfold Number.leastWord; omega) fits]
  simp [expired, show 0 < line + n by omega]

/-- A last line that is too large wraps to a negative number, which is no bound; no line is beyond it
either. -/
theorem expired_lines_of_beyond {n line : Int} (hn : Number.CountsLines n) (hl : Number.CountsLines line)
    (beyond : Number.greatestWord < line + n) (now m now' : Int) :
    ((LifeTime.lines n).window line now).expired m now' = false := by
  obtain ⟨hn, hn'⟩ := hn
  obtain ⟨hl, hl'⟩ := hl
  rw [window_lines hn, Number.word_of_beyond beyond (by omega)]
  unfold Number.greatestWord at beyond hn' hl'
  have wrapped : ¬ 0 < line + n - 18446744073709551616 := by omega
  unfold expired
  rw [decide_eq_false wrapped]
  rfl

/-- A life before the line it is declared on is over from that line on. -/
theorem expired_hoisted {n line : Int} (hn : n < 0) (hl : line ≠ 0) (now : Int) {m : Int}
    (past : line ≤ m) (now' : Int) : ((LifeTime.lines n).window line now).expired m now' = true := by
  have window : (LifeTime.lines n).window line now =
      { firstLine := Number.word (line + n), endLine := line } := by
    unfold LifeTime.window
    dsimp only
    rw [if_neg (by omega), if_pos hn]
  rw [window]
  simp [expired, hl, past]

end Window

/-- A variable with a life of some lines is alive up to that many lines after its own. -/
theorem State.alive_iff_of_lines {v : Variable} {m line now : Int}
    (window : v.window = (LifeTime.lines m).window line now) (hm : Number.CountsLines m)
    (hl : Number.CountsLines line) {s : State} (hs : s.line ≤ Number.greatestWord) :
    s.alive v = true ↔ s.line ≤ line + m := by
  unfold State.alive
  rw [window]
  by_cases fits : line + m ≤ Number.greatestWord
  · rw [Window.expired_lines hm.1 hl.1 fits]
    simp
  · rw [Window.expired_lines_of_beyond hm hl (by omega)]
    simp only [Bool.not_false, true_iff]
    omega

end Gapscript
