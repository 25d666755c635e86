import Gapscript.Proofs.Reading.Extent
import Gapscript.Proofs.Reading.Mirrored
import Gapscript.Proofs.Run.Positions
import Gapscript.Proofs.Text.Trim

/-!
# Guards read again

A watch keeps the text of a guard and reads it again when it fires, without what stands behind it. The text is
trimmed by the white space of Unicode, which may take more than the white space that is between a guard and its
body. As long as that is all that was cut off (`OpensBody.of_blank`), the guard reads as it did in the source
(`guards_read_again`).
-/

namespace Gapscript

open Lexical Cursor Reading

/-! ## Where a guard stands -/

/-- There is one cursor of a text at a place. -/
theorem Cursor.Reaches.eq_of_pos {c d e : Cursor} (hd : c.Reaches d) (he : c.Reaches e) (same : d.pos = e.pos) :
    d = e := by
  have between : c.textUntil d = c.textUntil e := by rw [textUntil, textUntil, same]
  have whole : c.textUntil d ++ d.rest = c.textUntil d ++ e.rest := by
    rw [← hd.movesTo.rest_eq, between, ← he.movesTo.rest_eq]
  obtain ⟨t, p⟩ := d
  obtain ⟨u, q⟩ := e
  cases same
  cases List.append_cancel_left whole
  rfl

section Trimmed

variable {x : Char} {t u : Text}

theorem Text.isLineSpace_of_isLayout (blank : isBlank x = true) (layout : isLayout x = true) :
    isLineSpace x = true := by
  unfold isLayout at layout
  unfold isLineSpace
  simp only [Bool.or_eq_true, beq_iff_eq] at layout ⊢
  rcases layout with (kept | rfl) | rfl
  · exact kept
  · cases blank
  · cases blank

/-- A brace behind white space. -/
def OpensBody (t : Text) : Prop := (t.drop (gap t)).head? = some '\x7b'

theorem OpensBody.tail (opens : OpensBody (x :: t)) (layout : isLayout x = true) : OpensBody t := by
  rw [OpensBody, gap_of_layout layout, List.drop_succ_cons] at opens
  exact opens

/-- In front of a brace white space of Unicode is white space of the language. -/
theorem OpensBody.isLayout (opens : OpensBody (x :: t)) (blank : Text.isBlank x = true) : isLayout x = true := by
  refine Decidable.byContradiction fun solid => ?_
  have slash : x ≠ '/' := by
    rintro rfl
    cases blank
  rw [OpensBody, gap, gapFrom_solid solid, if_neg (by simp [slash]), List.drop_zero, List.head?_cons] at opens
  cases opens
  cases blank

theorem OpensBody.of_blank (blank : ∀ x ∈ u, Text.isBlank x = true) (opens : OpensBody (u ++ t)) :
    OpensBody t ∧ ∀ x ∈ u, Text.isLineSpace x = true := by
  induction u with
  | nil => exact ⟨opens, List.forall_mem_nil _⟩
  | cons x u ih =>
    obtain ⟨here, later⟩ := List.forall_mem_cons.1 blank
    have layout := opens.isLayout here
    obtain ⟨behind, others⟩ := ih later (opens.tail layout)
    exact ⟨behind, List.forall_mem_cons.2 ⟨Text.isLineSpace_of_isLayout here layout, others⟩⟩

/-- Only characters at the end are trimmed from what was read behind white space, if what is left stands in front of
white space and a brace. -/
theorem exists_of_trim (some : u ≠ []) (solid : gap (u ++ t) = 0) {behind : Text}
    (whole : u ++ t = Text.trim u ++ behind) (opens : OpensBody behind) :
    Text.trim u ≠ [] ∧ ∃ w, u = Text.trim u ++ w ∧ ∀ x ∈ w, Text.isBlank x = true := by
  obtain ⟨x, v, rfl⟩ := List.exists_cons_of_ne_nil some
  have visible : Text.isBlank x = false := by
    refine Bool.eq_false_iff.2 fun blank => ?_
    cases left : Text.trim (x :: v) with
    | nil =>
      rw [left, List.nil_append] at whole
      rw [← whole] at opens
      have layout := opens.isLayout blank
      rw [isLayout_of_gap_eq_zero solid] at layout
      cases layout
    | cons y w =>
      rw [left] at whole
      have same : x = y := (List.cons.inj whole).1
      have visible : Text.isBlank y = false := Text.not_isBlank_of_mem_head?_trim (t := x :: v) (by rw [left]; rfl)
      rw [← same, blank] at visible
      cases visible
  have only : Text.trim (x :: v) = Text.dropEnd Text.isBlank (x :: v) := by
    refine Text.trim_eq_dropEnd ?_
    rintro _ ⟨⟩
    exact visible
  obtain ⟨w, split, blank⟩ := Text.exists_of_dropEnd Text.isBlank (x :: v)
  rw [← only] at split
  refine ⟨fun none => ?_, w, split, blank⟩
  rw [none, List.nil_append] at split
  rw [blank x (split ▸ List.mem_cons_self)] at visible
  cases visible

end Trimmed

/-! ## Reading a guard again -/

namespace Behind

variable {names : Names} {g : Guard} {c e : Cursor} {tree : Expr} {l l' : List String}

theorem opensBody (B : Behind) : OpensBody B.text := by
  have layout : ∀ x ∈ B.space, isLayout x = true := fun x hx => isLayout_of_isLineSpace (B.blank x hx)
  rw [OpensBody, text, gap_layout layout, ← List.drop_drop, List.drop_left]
  exact B.brace

theorem Quiet.congr {B C : Behind} {u : Text} (quiet : B.Quiet u) (same : C.text = B.text) : C.Quiet u :=
  ⟨quiet.escape, same ▸ quiet.slash, same ▸ quiet.braces⟩

/-- A guard is read up to a brace in its source, and up to its end alone. -/
theorem fits_brace : (Terminator.tokens ["\x7b"]).Fits Terminator.never where
  charwise := charwise_tokens (by decide)
  charwise' _ _ _ := rfl
  agree x other := by simp [Terminator.tokens, Terminator.never, List.isPrefixOf, Ne.symm other]
  brace := rfl

/-- The text of a guard that stands in its source is what was read but for white space, which was cut off. -/
theorem exists_of_readIn (B : Behind) (read : g.ReadIn names c) (stands : c.Reaches ⟨g.text ++ B.text, g.pos⟩) :
    g.text ≠ [] ∧ gap (g.text ++ B.text) = 0 ∧ ∃ (C : Behind) (e : Cursor) (l l' : List String),
      C.text = B.text ∧ e.rest = C.rest ∧
        expression names (Terminator.tokens ["\x7b"]) ⟨g.text ++ B.text, g.pos⟩ l = .ok (g.tree, e) l' := by
  obtain ⟨s, e, l, l', reached, solid, run, -, text, pos⟩ := read
  have passed : s.Passes e := (gives_expression names _ _).of_run_ok run
  have source : s.rest = s.textUntil e ++ e.rest := passed.reaches.movesTo.rest_eq
  obtain rfl : s = ⟨g.text ++ B.text, g.pos⟩ := reached.eq_of_pos stands pos.symm
  generalize textUntil ⟨g.text ++ B.text, g.pos⟩ e = u at source text
  have nonempty : u ≠ [] := by
    rintro rfl
    exact absurd passed.length_lt (by rw [source]; exact Nat.lt_irrefl _)
  obtain ⟨kept, w, split, blank⟩ := exists_of_trim nonempty (source ▸ solid) (text ▸ source.symm) B.opensBody
  rw [← text] at kept split
  have behind : w ++ e.rest = B.text := by
    rw [split, List.append_assoc] at source
    exact (List.append_cancel_left source).symm
  obtain ⟨brace, space⟩ := OpensBody.of_blank blank (behind ▸ B.opensBody)
  exact ⟨kept, solid, ⟨w, e.rest, space, brace⟩, e, l, l', behind, rfl, run⟩

/-- What is read in the source up to what stands behind the text is all that is read when the text stands alone. -/
theorem settles_fullExpression (B : Behind) {u : Text} {p : Position} (nonempty : u ≠ [])
    (solid : gap (u ++ B.text) = 0) (quiet : B.Quiet u)
    (run : expression names (Terminator.tokens ["\x7b"]) ⟨u ++ B.text, p⟩ l = .ok (tree, e) l') (left : e.rest = B.rest)
    (worded : tree.worded = true) : (fullExpression names ⟨u, p⟩).Settles tree := by
  have past : (skipGap e).rest.length ≤ B.rest.length := left ▸ (reaches_skipGap e).length_le
  have begun : skipGap ⟨u, p⟩ = ⟨u, p⟩ := by rw [skipGap, gap_cut quiet, solid, Nat.zero_min, skip_zero]
  obtain ⟨x, v, rfl⟩ := List.exists_cons_of_ne_nil nonempty
  have ahead : B.Ahead e := by rw [Ahead, left]
  obtain ⟨d, meets, settles⟩ := B.mirrors_expressionAt names _ fits_brace quiet run ahead (.inl past) worded
  have enough : (x :: v).length < (x :: v ++ B.text).length + 1 := by rw [List.length_append]; omega
  rw [expressionAt_eq enough] at settles
  have ended : (skipGap d).atEnd = true := by
    -- In the source only white space is left in front of the rest, so no character of the text is.
    have stands := meets.skipGap
    generalize skipGap e = f at stands past
    generalize skipGap d = f' at stands
    cases stands with
    | beyond => rfl
    | inside =>
      rw [List.length_append, length_text, List.length_cons] at past
      omega
  unfold fullExpression
  rw [begun]
  refine settles.bind ?_
  dsimp only
  rw [if_pos ended]
  exact settles_pure _

end Behind

/-- A guard reads again as it did in its source. What is kept of it has to stand where the guard began, in front of
white space and a brace, and not go on into what stands behind it; and no text that nobody quoted may begin like an
array, an object or a prefix operator. -/
theorem guards_read_again {names : Names} {word : String} {c d : Cursor} {bs : List Branch} {l l' : List String}
    (read : branches names word c l = .ok (bs, d) l') {b : Branch} (among : b ∈ bs) {g : Guard}
    (guarded : b.guard = some g) (B : Behind) (stands : c.Reaches ⟨g.text ++ B.text, g.pos⟩)
    (quiet : B.Quiet g.text) (worded : g.tree.worded = true) :
    (fullExpression names ⟨g.text, g.pos⟩).Settles g.tree := by
  have known := yields_branches names word c _ _ _ read b among g guarded
  obtain ⟨nonempty, solid, C, e, m, m', same, left, run⟩ := B.exists_of_readIn known stands
  rw [← same] at solid run
  exact C.settles_fullExpression nonempty solid (quiet.congr same) run left worded

/-- An apostrophe in a word of a guard and one in its body are no quotation. -/
theorem guards_read_again_apostrophe :
    let x : Variable := ⟨"x", .bigint 1, .varVar, .forever, 1, false, LifeTime.forever.window 1 0⟩
    let names := State.names { frames := [{ vars := [x] }] }
    ∃ bs d l, branches names "when" (Cursor.start "when x == it's \x7b print fire's! \x7d" "") [] = .ok (bs, d) l ∧
      ∃ b ∈ bs, ∃ g, b.guard = some g ∧ g.text = "x == it's".toList ∧
        (fullExpression names ⟨g.text, g.pos⟩).Settles g.tree := by
  intro x names
  have found : (match branches names "when" (Cursor.start "when x == it's \x7b print fire's! \x7d" "") [] with
      | .ok (bs, _) _ => bs.any fun b => b.guard.any fun g =>
        g.text == "x == it's".toList && g.pos == ⟨1, 6, 5, 0, ""⟩ && g.tree.worded
      | .error _ _ => false) = true := by decide +kernel
  split at found
  · next bs d l read =>
    obtain ⟨b, among, found⟩ := List.any_eq_true.1 found
    obtain ⟨g, guarded, found⟩ := (Option.any_eq_true _ _).1 found
    simp only [Bool.and_eq_true, beq_iff_eq] at found
    obtain ⟨⟨text, pos⟩, worded⟩ := found
    let B : Behind := ⟨" ".toList, "\x7b print fire's! \x7d".toList, by decide, by decide⟩
    have stands : (Cursor.start "when x == it's \x7b print fire's! \x7d" "").Reaches ⟨g.text ++ B.text, g.pos⟩ :=
      ⟨5, by rw [text, pos]; decide⟩
    have quiet : B.Quiet g.text := by
      rw [text]
      exact ⟨by decide, by decide, fun v inner => absurd (inner.subset List.mem_cons_self) (by decide)⟩
    exact ⟨bs, d, l, read, b, among, g, guarded, text, guards_read_again read among guarded B stands quiet worded⟩
  · cases found

/-- The operands of an expression that are texts nobody quoted. -/
def Expr.bareWords : Expr → List String
  | .unary _ e => e.bareWords
  | .binary _ l r => l.bareWords ++ r.bareWords
  | .atom (.literal (.string s) true) _ _ => [s]
  | .atom .. => []

/-- Three guards that read otherwise when they stand alone: a no-break space belongs to a word of the source and is
cut off, an escape at the end of a word is cut off from what it stands before, and a quotation that is opened in a
word is closed in the body. -/
theorem guards_read_otherwise :
    let x : Variable := ⟨"x", .bigint 1, .varVar, .forever, 1, false, LifeTime.forever.window 1 0⟩
    let a : Variable := ⟨"a", .bigint 2, .varVar, .forever, 1, false, LifeTime.forever.window 1 0⟩
    let names := State.names { frames := [{ vars := [x, a] }] }
    ∀ source ∈ ["when x == a\u00a0 \x7b print fired! \x7d", "when x == b\\ \x7b print fired! \x7d",
        "when x == ['a] \x7b print fire'd! \x7d"],
      ∃ bs d l, branches names "when" (Cursor.start source "") [] = .ok (bs, d) l ∧
        ∃ b ∈ bs, ∃ g, b.guard = some g ∧ ¬ (fullExpression names ⟨g.text, g.pos⟩).Settles g.tree := by
  intro x a names source listed
  have differ : (match branches names "when" (Cursor.start source "") [] with
      | .ok (bs, _) _ => bs.any fun b => b.guard.any fun g =>
        match fullExpression names ⟨g.text, g.pos⟩ [] with
        | .ok e _ => e.bareWords != g.tree.bareWords
        | .error _ _ => true
      | .error _ _ => false) = true := by
    simp only [List.mem_cons, List.not_mem_nil, or_false] at listed
    rcases listed with rfl | rfl | rfl
    all_goals decide +kernel
  split at differ
  · next bs d l read =>
    obtain ⟨b, among, differ⟩ := List.any_eq_true.1 differ
    obtain ⟨g, guarded, differ⟩ := (Option.any_eq_true _ _).1 differ
    refine ⟨bs, d, l, read, b, among, g, guarded, fun settles => ?_⟩
    obtain ⟨l', again⟩ := settles []
    rw [again] at differ
    exact absurd rfl (bne_iff_ne.1 differ)
  · cases differ

end Gapscript
