import Gapscript.Proofs.Lexical.Boundary
import Gapscript.Proofs.Run.Positions

/-!
# The measure of white space

Precedence rests on the number of characters of white space around an operator. White space is made of
single characters, the parentheses among them, and of comments that run to the end of their line
(`Spacing`). The walk over it takes one such piece after the other and counts a comment by the text between
its two ends; it stops at the first thing that is no white space (`walkGap_spec`). There is one place only
where it can stop (`gap_of_spacing`), so the measure is the number of characters that were passed
(`gap_measured`).
-/

namespace Gapscript

/-- The cursor at the end of the line, or of the text. -/
def Cursor.lineEnd (c : Cursor) : Cursor := c.skip (c.rest.takeWhile (· != '\n')).length

theorem Cursor.textUntil_skip (c : Cursor) (n : Nat) : c.textUntil (c.skip n) = c.rest.take n := by
  have split := (c.reaches_skip n).movesTo.rest_eq
  rw [rest_skip] at split
  exact (List.append_cancel_right ((List.take_append_drop n c.rest).trans split)).symm

theorem Cursor.textUntil_lineEnd (c : Cursor) : c.textUntil c.lineEnd = c.rest.takeWhile (· != '\n') := by
  rw [lineEnd, textUntil_skip]
  exact (List.prefix_iff_eq_take.1 (List.takeWhile_prefix _)).symm

theorem Cursor.rest_lineEnd (c : Cursor) : c.lineEnd.rest = c.rest.dropWhile (· != '\n') := by
  have split := (c.reaches_skip (c.rest.takeWhile (· != '\n')).length).movesTo.rest_eq
  rw [← lineEnd, textUntil_lineEnd] at split
  exact (List.append_cancel_left (List.takeWhile_append_dropWhile.trans split)).symm

namespace Lexical

variable {c : Cursor} {s t ahead body : Text} {x : Char}

/-! ## Texts of white space -/

/-- A character of white space or a comment comes next. -/
def opensGap (t : Text) : Bool := t.head?.any isLayout || startsComment t

/-- The text is white space in front of another one: characters of white space, and comments that each run to
the end of the line or of everything. -/
inductive Spacing (ahead : Text) : Text → Prop
  | nil : Spacing ahead []
  | layout {x : Char} {t : Text} (layout : isLayout x = true) (later : Spacing ahead t) : Spacing ahead (x :: t)
  | comment {body t : Text} (line : '\n' ∉ body) (ends : (t ++ ahead).head?.all (· == '\n') = true)
      (later : Spacing ahead t) : Spacing ahead ('/' :: '/' :: body ++ t)

theorem gap_of_opensGap (stop : opensGap t = false) : gap t = 0 := by
  cases t with
  | nil => rfl
  | cons x t =>
    rw [opensGap, Bool.or_eq_false_iff] at stop
    have solid : ¬ isLayout x = true := by simpa using stop.1
    rw [gap, gapFrom_solid solid, ← startsComment_cons, stop.2]
    rfl

/-- A comment is passed over up to the end of its line. -/
theorem gapFrom_body (line : '\n' ∉ body) (ends : t.head?.all (· == '\n') = true) :
    gapFrom true (body ++ t) = body.length + gap t := by
  induction body with
  | nil =>
    cases t with
    | nil => rfl
    | cons x t =>
      obtain rfl : x = '\n' := by simpa using ends
      rw [gap_of_layout rfl, List.nil_append, gapFrom, List.length_nil, Nat.zero_add]
      rfl
  | cons x body ih =>
    rw [List.mem_cons, not_or] at line
    rw [List.cons_append, gapFrom, bne_iff_ne.2 (Ne.symm line.1), ih line.2, List.length_cons, Nat.add_right_comm]

/-- White space that no more of it follows is passed over exactly. -/
theorem gap_of_spacing (spacing : Spacing ahead s) (stop : opensGap ahead = false) :
    gap (s ++ ahead) = s.length := by
  induction spacing with
  | nil => exact gap_of_opensGap stop
  | layout layout _ ih => rw [List.cons_append, gap_of_layout layout, ih, List.length_cons]
  | @comment body t line ends _ ih =>
    have passed : gap ('/' :: '/' :: (body ++ (t ++ ahead))) = gapFrom true (body ++ (t ++ ahead)) + 1 + 1 := rfl
    rw [List.cons_append, List.cons_append, List.cons_append, List.cons_append, List.append_assoc, passed,
      gapFrom_body line ends, ih]
    simp only [List.length_cons, List.length_append]

/-! ## The walk over white space -/

theorem exists_of_startsComment (comment : startsComment t = true) : ∃ u, t = '/' :: '/' :: u := by
  unfold startsComment at comment
  split at comment
  · exact ⟨_, rfl⟩
  · cases comment

/-- The line of a comment begins with its slashes, and the end of a line or of the text comes behind it. -/
theorem exists_line (comment : startsComment t = true) :
    ∃ body, t.takeWhile (· != '\n') = '/' :: '/' :: body ∧ '\n' ∉ body ∧
      (t.dropWhile (· != '\n')).head?.all (· == '\n') = true := by
  obtain ⟨u, rfl⟩ := exists_of_startsComment comment
  refine ⟨u.takeWhile (· != '\n'), rfl, fun inside => ?_, ?_⟩
  · have other := List.all_eq_true.1 List.all_takeWhile '\n' inside
    cases other
  · have stop := List.head?_dropWhile_not (· != '\n') ('/' :: '/' :: u)
    cases ahead : (('/' :: '/' :: u).dropWhile (· != '\n')).head? with
    | none => rfl
    | some x =>
      rw [ahead] at stop
      simpa using stop

/-- A cursor that goes over white space piece by piece, a character or a whole comment at a time, with the
characters passed so far. -/
def walkGap (c : Cursor) (width : Nat) : Cursor × Nat :=
  if startsComment c.rest then walkGap c.lineEnd (width + (c.textUntil c.lineEnd).length)
  else if c.peek?.any isLayout then walkGap c.next (width + 1)
  else (c, width)
termination_by c.rest.length
decreasing_by
  · next comment =>
    obtain ⟨body, line, -, -⟩ := exists_line comment
    have passed := congrArg List.length line
    have whole := congrArg List.length (List.takeWhile_append_dropWhile (p := (· != '\n')) (l := c.rest))
    rw [Cursor.rest_lineEnd]
    simp only [List.length_append, List.length_cons] at passed whole
    omega
  · next layout =>
    obtain ⟨t, p⟩ := c
    cases t with
    | nil => cases layout
    | cons x t => exact Nat.lt_succ_self _

/-- The walk passes white space, counts its characters, and stops where no more of it comes next. -/
theorem walkGap_spec (c : Cursor) (width : Nat) :
    ∃ s, c.rest = s ++ (walkGap c width).1.rest ∧ walkGap c width = (c.skip s.length, width + s.length) ∧
      Spacing (walkGap c width).1.rest s ∧ opensGap (walkGap c width).1.rest = false := by
  fun_induction walkGap c width with
  | case1 c width comment ih =>
    obtain ⟨s, split, walked, spacing, stop⟩ := ih
    obtain ⟨body, line, inside, ends⟩ := exists_line comment
    rw [Cursor.rest_lineEnd] at split
    refine ⟨'/' :: '/' :: body ++ s, ?_, ?_, .comment inside ?_ spacing, stop⟩
    · rw [List.append_assoc, ← split, ← line, List.takeWhile_append_dropWhile]
    · rw [walked, Cursor.textUntil_lineEnd, Cursor.lineEnd, Cursor.skip_skip, line, List.length_append,
        Nat.add_assoc]
    · rw [← split]
      exact ends
  | case2 c width plain layout ih =>
    obtain ⟨s, split, walked, spacing, stop⟩ := ih
    obtain ⟨t, p⟩ := c
    cases t with
    | nil => cases layout
    | cons x t =>
      refine ⟨x :: s, congrArg (x :: ·) split, ?_, .layout layout spacing, stop⟩
      rw [walked, List.length_cons, Cursor.skip_succ, Nat.add_assoc, Nat.add_comm 1]
  | case3 c width plain solid =>
    refine ⟨[], rfl, rfl, .nil, ?_⟩
    rw [opensGap, Bool.or_eq_false_iff]
    exact ⟨Bool.eq_false_iff.2 solid, Bool.eq_false_iff.2 plain⟩

/-- White space at the start of a text, and what comes behind it. -/
theorem exists_spacing (t : Text) : ∃ s ahead, t = s ++ ahead ∧ Spacing ahead s ∧ opensGap ahead = false := by
  obtain ⟨s, split, -, spacing, stop⟩ := walkGap_spec ⟨t, {}⟩ 0
  exact ⟨s, _, split, spacing, stop⟩

/-- What is measured at once is what the walk counts. -/
theorem measureGap_eq_walkGap (c : Cursor) : measureGap c = walkGap c 0 := by
  obtain ⟨s, split, walked, spacing, stop⟩ := walkGap_spec c 0
  have width := gap_of_spacing spacing stop
  rw [← split] at width
  rw [walked, measureGap, skipGap, width, Nat.zero_add]

/-- The measure of white space is the number of characters that it passes. They are characters of white space,
parentheses and comments that each run to the end of their line, nothing of that kind comes behind them, and
a second measure passes nothing. -/
theorem gap_measured (c : Cursor) :
    let d := (measureGap c).1
    let passed := c.textUntil d
    d = skipGap c ∧ c.rest = passed ++ d.rest ∧ d.pos = c.pos.afterText passed ∧
      (measureGap c).2 = passed.length ∧ Spacing d.rest passed ∧
      opensGap d.rest = false ∧ measureGap d = (d, 0) := by
  obtain ⟨s, split, walked, spacing, stop⟩ := walkGap_spec c 0
  rw [← measureGap_eq_walkGap, Nat.zero_add] at walked
  rw [← measureGap_eq_walkGap] at split spacing stop
  have passed : c.textUntil (measureGap c).1 = s := by
    rw [walked, Cursor.textUntil_skip, split, List.take_left]
  have still := gap_of_opensGap stop
  dsimp only
  rw [passed]
  refine ⟨rfl, split, ?_, by rw [walked], spacing, stop, ?_⟩
  · rw [walked, Cursor.pos_skip, split, List.take_left]
  · rw [measureGap, skipGap, still, Cursor.skip_zero]

/-- A comment may end with the text, and its characters are counted, not their bytes. -/
example : measureGap ⟨"(\t// é\n )// ü".toList, {}⟩ = (⟨[], ⟨2, 7, 15, 0, ""⟩⟩, 13) := by decide

end Lexical

end Gapscript
