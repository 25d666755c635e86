import Gapscript.Proofs.Reading.Extent
import Gapscript.Proofs.Session.OwnLine

/-!
# The lines of a window

The bounds of a window are sums of 64-bit integers, and zero or a negative last line is no bound. A sum
that is too large wraps to a negative number, so the window it ends has no end, and no line lies beyond
the true one either. A sum that would be too small does not occur: lines count from one, and the least
number of lines that is read still leaves the sum of both a word.
-/

namespace Gapscript

/-! ## Windows and sums of words -/

theorem Number.word_add_toInt (line : Int64) (n : Int) :
    word (line.toInt + n) = (line + Int64.ofInt n).toInt := by
  rw [Int64.toInt_add, Int64.toInt_ofInt, Int.add_bmod_bmod]
  rfl

theorem Number.toInt_ofInt_of_fits {n : Int} (least : leastWord ≤ n) (greatest : n ≤ greatestWord) :
    (Int64.ofInt n).toInt = n := by
  rw [Int64.toInt_ofInt]
  exact word_of_within least greatest

theorem Number.countsLines_toInt {line : Int64} (h : 1 ≤ line) : CountsLines line.toInt := by
  have positive : (1 : Int64).toInt ≤ line.toInt := Int64.le_iff_toInt_le.1 h
  exact ⟨positive, Int64.toInt_le line⟩

/-- On the line `m` there is a binding that was declared on `line` with a life of `n` lines: up to `n`
lines further on, on the `-n` lines ahead of the declaration, or everywhere. -/
def LifeTime.Covers (n line m : Int) : Prop :=
  (0 < n → m ≤ line + n) ∧ (n < 0 → line + n ≤ m ∧ m < line)

namespace Window

theorem window_hoisted {n : Int} (hn : n < 0) (line now : Int) :
    (LifeTime.lines n).window line now = { firstLine := Number.word (line + n), endLine := line } := by
  unfold LifeTime.window
  dsimp only
  rw [if_neg (by omega), if_pos hn]

/-- Ahead of the line that it is declared on, a binding is there from its first line on. -/
theorem expired_ahead {n line : Int} (hn : n < 0) (least : Number.leastWord ≤ n)
    (hl : Number.CountsLines line) (now m now' : Int) :
    ((LifeTime.lines n).window line now).expired m now' = false ↔ line + n ≤ m ∧ m < line := by
  obtain ⟨positive, counted⟩ := hl
  have sum : Number.word (line + n) = line + n := Number.word_of_within (by omega) (by omega)
  have apart : line ≠ 0 := by omega
  rw [window_hoisted hn, sum]
  simp [expired, apart, and_comm]

/-- A window that is measured in lines is open exactly on the lines that the life time covers. -/
theorem expired_iff_covers {n line m : Int} (fits : (LifeTime.lines n).Fits) (hl : Number.CountsLines line)
    (hm : Number.CountsLines m) (now now' : Int) :
    ((LifeTime.lines n).window line now).expired m now' = false ↔ LifeTime.Covers n line m := by
  obtain ⟨least, greatest⟩ := fits
  rcases Int.lt_trichotomy n 0 with ahead | rfl | later
  · rw [expired_ahead ahead least hl]
    exact ⟨fun within => ⟨fun _ => by omega, fun _ => within⟩, fun covers => covers.2 ahead⟩
  · exact iff_of_true rfl ⟨fun never => absurd never (by decide), fun never => absurd never (by decide)⟩
  · have covers : LifeTime.Covers n line m ↔ m ≤ line + n :=
      ⟨fun h => h.1 later, fun h => ⟨fun _ => h, fun _ => by omega⟩⟩
    rw [covers]
    by_cases within : line + n ≤ Number.greatestWord
    · rw [expired_lines later hl.1 within]
      simp
    · rw [expired_lines_of_beyond ⟨later, greatest⟩ hl (by omega)]
      have := hm.2
      exact iff_of_true rfl (by omega)

end Window

/-! ## Bindings -/

theorem fits_parse {c d : Cursor} {life : LifeTime} (h : LifeTime.parse c = .ok (life, d)) : life.Fits := by
  unfold LifeTime.parse at h
  dsimp only at h
  split at h
  · split at h
    · cases h
    · split at h
      · next hl =>
        cases h
        exact fits_ofText hl
      · cases h
  · cases h

theorem innermost?_modifyTop_put (s : State) (v : Variable) :
    (s.modifyTop fun f => { f with vars := Frame.putVariable v f.vars }).innermost? v.name = some v := by
  have bound := binding?_putVariable v
  unfold State.modifyTop State.innermost?
  split
  · next top _ _ => exact bound top.vars top.funcs
  · exact bound [] []

theorem innermost?_declareHoisted (s : State) (name : String) (value : Value) (m : Mutability)
    (life : LifeTime) (line : Int) : (s.declareHoisted name value m life line).innermost? name =
      some ⟨name, value, m, life, line, true, life.window line s.now⟩ := by
  have bound (s : State) := innermost?_modifyTop_put s ⟨name, value, m, life, line, true, life.window line s.now⟩
  unfold State.declareHoisted
  cases value with
  | function f => exact bound { s with hoistedFunctions := f.id :: s.hoistedFunctions }
  | _ => exact bound s

theorem alive_iff_covers {v : Variable} {n line now : Int}
    (window : v.window = (LifeTime.lines n).window line now) (fits : (LifeTime.lines n).Fits)
    (hl : Number.CountsLines line) {s : State} (hs : Number.CountsLines s.line) :
    s.alive v = true ↔ LifeTime.Covers n line s.line := by
  rw [State.alive, window, Bool.not_eq_true', Window.expired_iff_covers fits hl hs]

/-- A number of lines that is read is a word, and the bounds of its window are sums of words. Whether it is
declared on a line or bound ahead of it, the binding is alive on exactly the lines that the life time
covers by the sum of the integers. -/
theorem line_windows_exact {c d : Cursor} {n : Int} (read : LifeTime.parse c = .ok (.lines n, d))
    {line m : Int64} (hl : 1 ≤ line) (hm : 1 ≤ m) :
    (Int64.ofInt n).toInt = n ∧
    (∀ now, (LifeTime.lines n).window line.toInt now =
      if 0 < n then { lastLine := (line + Int64.ofInt n).toInt }
      else if n < 0 then { firstLine := (line + Int64.ofInt n).toInt, endLine := line.toInt }
      else {}) ∧
    ∀ (s : State) (name : String) (value : Value) (mutability : Mutability),
      (∃ v, (State.declare { s with line := line.toInt } name value mutability (.lines n)).innermost? name =
          some v ∧
        ∀ t : State, State.alive { t with line := m.toInt } v = true ↔
          LifeTime.Covers n line.toInt m.toInt) ∧
      ∃ v, (s.declareHoisted name value mutability (.lines n) line.toInt).innermost? name = some v ∧
        ∀ t : State, State.alive { t with line := m.toInt } v = true ↔
          LifeTime.Covers n line.toInt m.toInt := by
  have fits : (LifeTime.lines n).Fits := fits_parse read
  have counted := Number.countsLines_toInt hl
  have alive {v : Variable} (now : Int) (window : v.window = (LifeTime.lines n).window line.toInt now)
      (t : State) :
      State.alive { t with line := m.toInt } v = true ↔ LifeTime.Covers n line.toInt m.toInt :=
    alive_iff_covers (s := { t with line := m.toInt }) window fits counted (Number.countsLines_toInt hm)
  refine ⟨Number.toInt_ofInt_of_fits fits.1 fits.2, fun now => ?_, fun s name value mutability => ⟨?_, ?_⟩⟩
  · rw [← Number.word_add_toInt]
    rfl
  · exact ⟨_, innermost?_declare _ name value mutability _, alive s.now rfl⟩
  · exact ⟨_, innermost?_declareHoisted s name value mutability _ _, alive s.now rfl⟩

/-- The largest number of lines, on the last line: the sum wraps, and the binding is there. -/
theorem line_windows_exact_wrapped :
    ∃ d, LifeTime.parse (Cursor.start "<9223372036854775807>" "") = .ok (.lines 9223372036854775807, d) ∧
      (2 + Int64.ofInt 9223372036854775807 : Int64).toInt = -9223372036854775807 ∧
      ∃ v, (State.declare { line := 2 } "x" .null .varVar (.lines 9223372036854775807)).innermost? "x" = some v ∧
        State.alive { line := 9223372036854775807 } v = true := by
  have read : LifeTime.parse (Cursor.start "<9223372036854775807>" "") =
      .ok (.lines 9223372036854775807, (Cursor.start "<9223372036854775807>" "").skip 21) := by
    rfl
  have windows := line_windows_exact read (show (1 : Int64) ≤ 2 by decide)
    (show (1 : Int64) ≤ 9223372036854775807 by decide)
  obtain ⟨v, bound, alive⟩ := (windows.2.2 {} "x" .null .varVar).1
  refine ⟨_, read, by decide, v, bound, (alive {}).2 ⟨fun _ => by decide, fun never => ?_⟩⟩
  exact absurd never (by decide)

end Gapscript
