import Gapscript.Proofs.Lexical.Cut
import Gapscript.Proofs.Reading.Expression

/-!
# Two readings of a text

A text is read in its source and alone. Cursors of the two readings meet if they have the same left in front of
what stands behind the text (`Behind.Meets`), and they still do behind white space and comments, unless the
first one has come to the rest (`Behind.Meets.skipGap`). A production tallies if it takes the same in both
readings wherever it ends in front of the rest (`Behind.Lands`), and nothing where it takes nothing
(`Behind.Tallies`). `Behind.Quiet` says of the text what this depends on.
-/

namespace Gapscript

open Lexical Cursor

theorem Cursor.Reaches.suffix {c d : Cursor} (h : c.Reaches d) : d.rest <:+ c.rest := by
  obtain ⟨p, same, -⟩ := h.exists_text
  exact ⟨p, same.symm⟩

namespace Behind

variable {B : Behind} {u v w : Text} {x : Char} {p : Position} {c c' d d' : Cursor} {term term' : Terminator} {n : Nat}

/-! ## Where two readings are -/

/-- At its end the text hides nothing of what stands behind it and begins no comment with it, and a block that
ends in the text ends there in the source as well. -/
structure Quiet (B : Behind) (u : Text) : Prop where
  escape : u.getLast? ≠ some '\\'
  slash : u.getLast? = some '/' → B.text.head? ≠ some '/'
  braces : ∀ v, '\x7b' :: v <:+ u → ∀ n, blockLength 1 0 v = some n → blockLength 1 0 (v ++ B.text) = some n

theorem Quiet.suffix (quiet : B.Quiet u) (part : v <:+ u) : B.Quiet v := by
  have last {x : Char} (found : v.getLast? = some x) : u.getLast? = some x := by
    obtain ⟨t, rfl⟩ := part
    rw [List.getLast?_append, found]
    rfl
  exact ⟨fun found => quiet.escape (last found), fun found => quiet.slash (last found),
    fun w inner => quiet.braces w (inner.trans part)⟩

/-- The rest has not been entered. -/
def Ahead (B : Behind) (d : Cursor) : Prop := B.rest.length ≤ d.rest.length

theorem Ahead.of_reaches (ahead : B.Ahead d) (reach : c.Reaches d) : B.Ahead c :=
  Nat.le_trans ahead reach.length_le

theorem ahead_skip_iff : B.Ahead (Cursor.skip n ⟨u ++ B.text, p⟩) ↔ n ≤ u.length + B.space.length := by
  have pos := B.rest_pos
  rw [Ahead, rest_skip, List.length_drop, List.length_append, length_text]
  omega

theorem drop_text (short : n ≤ B.space.length) : B.text.drop n = B.space.drop n ++ B.rest := by
  rw [text, List.drop_append_of_le_length short]

/-- The cursors of the two readings have the same left of the text, or the first one is in the white space
behind it and the other one at its end. -/
inductive Meets (B : Behind) : Cursor → Cursor → Prop
  | inside {v : Text} {p : Position} (quiet : B.Quiet v) : Meets B ⟨v ++ B.text, p⟩ ⟨v, p⟩
  | beyond {w : Text} {p p' : Position} (part : w <:+ B.space) : Meets B ⟨w ++ B.rest, p⟩ ⟨[], p'⟩

theorem meets_onto (quiet : B.Quiet d.rest) : B.Meets (d.onto B.text) d := .inside quiet

theorem meets_skip (quiet : B.Quiet u) (ahead : n ≤ u.length + B.space.length) :
    B.Meets (Cursor.skip n ⟨u ++ B.text, p⟩) (Cursor.skip (min n u.length) ⟨u, p⟩) := by
  by_cases short : n ≤ u.length
  · have same : Cursor.skip n ⟨u ++ B.text, p⟩ = (Cursor.skip n ⟨u, p⟩).onto B.text := skip_onto (c := ⟨u, p⟩) short
    rw [Nat.min_eq_left short, same]
    exact meets_onto (quiet.suffix (reaches_skip ⟨u, p⟩ n).suffix)
  · have text : (u ++ B.text).drop n = B.space.drop (n - u.length) ++ B.rest := by
      rw [List.drop_append, List.drop_of_length_le (by omega), List.nil_append, drop_text (by omega)]
    rw [Nat.min_eq_right (by omega), skip_eq, skip_eq]
    dsimp only
    rw [text, List.drop_length]
    exact .beyond (List.drop_suffix _ _)

/-- The cursors of the two readings behind white space and comments: at the same character of the text, or the
first one has come to the rest. -/
inductive Stands (B : Behind) : Cursor → Cursor → Prop
  | inside {x : Char} {v : Text} {p : Position} (quiet : B.Quiet (x :: v)) (solid : isLayout x = false) :
    Stands B ⟨x :: v ++ B.text, p⟩ ⟨x :: v, p⟩
  | beyond {d : Cursor} {p : Position} (past : d.rest.length ≤ B.rest.length) : Stands B d ⟨[], p⟩

/-- White space and comments end in the text or behind the white space that is cut off. -/
theorem gap_apart (B : Behind) (u : Text) :
    gap (u ++ B.text) < u.length ∨ u.length + B.space.length ≤ gap (u ++ B.text) := by
  refine (Nat.lt_or_ge _ _).imp_right fun long => Nat.le_of_not_lt fun short => ?_
  have left : (u ++ B.text).drop (gap (u ++ B.text)) =
      B.space.drop (gap (u ++ B.text) - u.length) ++ B.rest := by
    rw [List.drop_append, List.drop_of_length_le long, List.nil_append, drop_text (by omega)]
  have none := gap_drop (u ++ B.text)
  obtain ⟨x, w, space⟩ : ∃ x w, B.space.drop (gap (u ++ B.text) - u.length) = x :: w :=
    List.exists_cons_of_ne_nil (by rw [← List.length_pos_iff, List.length_drop]; omega)
  have blank := B.blank x (List.mem_of_mem_drop (by rw [space]; exact List.mem_cons_self))
  rw [left, space, List.cons_append,
    gap_of_layout (isLayout_of_isLineSpace blank)] at none
  cases none

theorem gap_cut (quiet : B.Quiet u) : gap u = min (gap (u ++ B.text)) u.length :=
  gapFrom_cut quiet.slash false

theorem Meets.skipGap (meets : B.Meets c c') : B.Stands (skipGap c) (skipGap c') := by
  cases meets with
  | @beyond w p p' part =>
    refine .beyond ?_
    have layout : ∀ x ∈ w, isLayout x = true := fun x inside =>
      isLayout_of_isLineSpace (B.blank x (part.subset inside))
    rw [Lexical.skipGap, rest_skip, gap_layout layout, List.length_drop, List.length_append]
    omega
  | @inside u p quiet =>
    have cut := gap_cut quiet
    rcases B.gap_apart u with short | long
    · rw [Nat.min_eq_left short.le] at cut
      obtain ⟨x, v, left⟩ := List.exists_cons_of_ne_nil
        (show u.drop (gap u) ≠ [] by rw [← List.length_pos_iff, List.length_drop]; omega)
      have here : Lexical.skipGap ⟨u, p⟩ = ⟨x :: v, p.afterText (u.take (gap u))⟩ := by
        rw [Lexical.skipGap, skip_eq]
        exact congrArg (Cursor.mk · _) left
      have there : Lexical.skipGap ⟨u ++ B.text, p⟩ = (Lexical.skipGap ⟨u, p⟩).onto B.text := by
        rw [Lexical.skipGap, Lexical.skipGap, ← cut]
        exact skip_onto (c := ⟨u, p⟩) (gap_le_length u)
      rw [there, here]
      refine .inside (quiet.suffix ⟨u.take (gap u), by rw [← left, List.take_append_drop]⟩) ?_
      have none := gap_drop u
      rw [left] at none
      exact isLayout_of_gap_eq_zero none
    · rw [Nat.min_eq_right (by omega)] at cut
      have here : Lexical.skipGap ⟨u, p⟩ = ⟨[], p.afterText (u.take (gap u))⟩ := by
        rw [Lexical.skipGap, skip_eq]
        exact congrArg (Cursor.mk · _) (by rw [cut]; exact List.drop_length)
      rw [here]
      refine .beyond ?_
      rw [Lexical.skipGap, rest_skip, List.length_drop, List.length_append, length_text]
      dsimp only
      omega

/-- The two gaps in front of a character of the text are as wide. -/
theorem Meets.gap_eq (meets : B.Meets c c') (inside : (Lexical.skipGap c').rest ≠ []) :
    gap c.rest = gap c'.rest := by
  cases meets with
  | beyond part => exact absurd rfl inside
  | @inside u p quiet =>
    have cut := gap_cut quiet
    rcases B.gap_apart u with short | long
    · rw [Nat.min_eq_left short.le] at cut
      exact cut.symm
    · rw [Nat.min_eq_right (by omega)] at cut
      refine absurd ?_ inside
      rw [Lexical.skipGap, rest_skip, cut]
      exact List.drop_length

/-! ## What is taken -/

/-- The production ends in front of the rest, and not at an opening brace of the text. -/
structure Lands (B : Behind) (d : Cursor) : Prop where
  ahead : B.Ahead d
  free : B.rest.length < d.rest.length → d.rest.head? ≠ some '\x7b'

/-- What is taken in the source is taken when the text stands alone, if it ends as `P` says, and so is nothing. -/
structure Tallies (B : Behind) (P : Cursor → Prop) {α : Type} (r r' : Except ParseError (α × Cursor)) : Prop where
  ok : ∀ {a d}, r = .ok (a, d) → P d → ∃ d', r' = .ok (a, d') ∧ B.Meets d d'
  error : ∀ {e}, r = .error e → ∃ e', r' = .error e'

variable {P : Cursor → Prop} {α β : Type} {r r' : Except ParseError (α × Cursor)}

theorem Tallies.map (h : B.Tallies P r r') (f : α → β) :
    B.Tallies P (r.map fun (a, d) => (f a, d)) (r'.map fun (a, d) => (f a, d)) := by
  constructor
  · intro b d same ends
    cases read : r with
    | error e =>
      rw [read] at same
      cases same
    | ok a =>
      rw [read] at same
      cases same
      obtain ⟨d', alone, meets⟩ := h.ok read ends
      exact ⟨d', by rw [alone]; rfl, meets⟩
  · intro e same
    cases read : r with
    | ok a =>
      rw [read] at same
      cases same
    | error e =>
      obtain ⟨e', alone⟩ := h.error read
      exact ⟨e', by rw [alone]; rfl⟩

theorem tallies_onto (same : r = r'.map fun r => (r.1, r.2.onto B.text))
    (quiet : ∀ {a d}, r' = .ok (a, d) → B.Quiet d.rest) : B.Tallies P r r' := by
  subst same
  cases r' with
  | error e => exact ⟨nofun, fun _ => ⟨e, rfl⟩⟩
  | ok a =>
    obtain ⟨a, d'⟩ := a
    refine ⟨?_, nofun⟩
    rintro _ _ ⟨⟩ -
    exact ⟨d', rfl, meets_onto (quiet rfl)⟩

/-! ## Words -/

theorem free_drop (lands : B.Lands (Cursor.skip n ⟨u ++ B.text, p⟩)) (t : Text) : u.drop n ≠ '\x7b' :: t := by
  intro brace
  have short : n ≤ u.length := by
    refine Nat.le_of_not_lt fun long => ?_
    rw [List.drop_of_length_le long.le] at brace
    cases brace
  have text : (Cursor.skip n ⟨u ++ B.text, p⟩).rest = '\x7b' :: t ++ B.text := by
    rw [rest_skip, List.drop_append_of_le_length short, brace]
  refine lands.free ?_ ?_
  · rw [text, List.length_append, length_text, List.length_cons]
    omega
  · rw [text]
    rfl

/-- Words do not end in white space. -/
theorem wordLength_inside {first : Bool}
    (ahead : wordLength term first (u ++ B.text) ≤ u.length + B.space.length) :
    wordLength term first (u ++ B.text) ≤ u.length := by
  cases space : B.space with
  | nil =>
    rw [space] at ahead
    exact ahead
  | cons x w =>
    have layout := isLayout_of_isLineSpace (B.blank x (by rw [space]; exact List.mem_cons_self))
    have text : B.text = x :: (w ++ B.rest) := by rw [Behind.text, space]; rfl
    rw [text]
    clear ahead
    induction u generalizing first with
    | nil =>
      rw [List.nil_append, wordLength, if_pos layout]
      exact Nat.zero_le _
    | cons c u ih =>
      rw [List.cons_append, wordLength, List.length_cons]
      split
      · exact Nat.zero_le _
      · split
        · exact Nat.zero_le _
        · exact Nat.succ_le_succ ih

theorem tallies_identifier (charwise : term.Charwise) (quiet : B.Quiet u) :
    B.Tallies B.Ahead (identifier term ⟨u ++ B.text, p⟩) (identifier term ⟨u, p⟩) := by
  rw [identifier_eq, identifier_eq]
  dsimp only
  generalize width : wordLength term true (u ++ B.text) = n
  constructor
  · intro name d read ahead
    split at read
    · cases read
    · next some =>
      cases read
      have ahead := ahead_skip_iff.mp ahead
      have short : n ≤ u.length := width ▸ wordLength_inside (width ▸ ahead)
      have alone := wordLength_within charwise (width.symm ▸ short)
      rw [alone, width, if_neg some, List.take_append_of_le_length short]
      refine ⟨_, rfl, ?_⟩
      have meets := meets_skip (p := p) quiet ahead
      rwa [Nat.min_eq_left short] at meets
  · intro e read
    split at read
    · next none =>
      have alone := wordLength_within charwise (width.trans none ▸ Nat.zero_le u.length)
      rw [alone, width, if_pos none]
      exact ⟨_, rfl⟩
    · cases read

/-- The name of a binding ends in front of white space and of a brace. -/
theorem bindingName_cut (x : Char) (v : Text) (p : Position) : bindingName ⟨x :: v ++ B.text, p⟩ =
    (bindingName ⟨x :: v, p⟩).map fun r => (r.1, r.2.onto B.text) := bindingName_onto B.edged

theorem binaryOperator_cut (x : Char) (v : Text) (p : Position) : binaryOperator ⟨x :: v ++ B.text, p⟩ =
    (binaryOperator ⟨x :: v, p⟩).map fun r => (r.1, r.2.onto B.text) := binaryOperator_onto B.edged

theorem consume?_cut {s : String} (plain : ∀ y ∈ s.toList.tail, y ∉ edges) (x : Char) (v : Text) (p : Position) :
    Cursor.consume? ⟨x :: v ++ B.text, p⟩ s = (Cursor.consume? ⟨x :: v, p⟩ s).map (onto B.text) :=
  consume?_onto B.edged plain

/-! ## Signs -/

theorem not_ahead_of_passes (past : c.rest.length ≤ B.rest.length) (h : c.Passes d) : ¬B.Ahead d :=
  Nat.not_le.mpr (Nat.lt_of_lt_of_le h.length_lt past)

/-- A sign behind white space and comments. -/
theorem Meets.consume? (meets : B.Meets c c') {s : String} (nonempty : s.toList ≠ [])
    (plain : ∀ y ∈ s.toList.tail, y ∉ edges) (taken : (Lexical.skipGap c).consume? s = some d) (ahead : B.Ahead d) :
    ∃ d', (Lexical.skipGap c').consume? s = some d' ∧ B.Meets d d' := by
  have stands := meets.skipGap
  generalize Lexical.skipGap c = e at stands taken
  generalize Lexical.skipGap c' = e' at stands
  cases stands with
  | beyond past => exact absurd ahead (not_ahead_of_passes past (passes_consume? nonempty taken))
  | @inside x v p quiet solid =>
    rw [consume?_cut plain] at taken
    obtain ⟨d', alone, rfl⟩ := Option.map_eq_some_iff.mp taken
    exact ⟨d', alone, meets_onto (quiet.suffix (reaches_consume? alone).suffix)⟩

theorem Meets.consume?_none (meets : B.Meets c c') {s : String} (nonempty : s.toList ≠ [])
    (plain : ∀ y ∈ s.toList.tail, y ∉ edges) (none : (Lexical.skipGap c).consume? s = none) :
    (Lexical.skipGap c').consume? s = Option.none := by
  have stands := meets.skipGap
  generalize Lexical.skipGap c = e at stands none
  generalize Lexical.skipGap c' = e' at stands
  cases stands with
  | beyond past =>
    cases taken : Cursor.consume? ⟨[], _⟩ s with
    | none => rfl
    | some d =>
      have shorter := (passes_consume? nonempty taken).length_lt
      cases shorter
  | @inside x v p quiet solid =>
    rw [consume?_cut plain] at none
    exact Option.map_eq_none_iff.mp none

/-- The signs that end an expression within another one. -/
def closers : List Char := [',', ']', '\x7d']

/-- Behind white space and comments the text ends, or there is a sign that ends an expression. -/
def Ends (B : Behind) (d : Cursor) : Prop :=
  (Lexical.skipGap d).rest.length ≤ B.rest.length ∨ ∃ x ∈ closers, (Lexical.skipGap d).rest.head? = some x

theorem ends_of_consume? {s : String} (single : s.toList = [x]) (closes : x ∈ closers)
    (taken : (Lexical.skipGap c).consume? s = some d) : B.Ends c := by
  refine .inr ⟨x, closes, ?_⟩
  unfold Cursor.consume? at taken
  split at taken
  · next starts =>
    rw [startsWith, single, List.isPrefixOf_iff_prefix] at starts
    obtain ⟨t, same⟩ := starts
    rw [← same]
    rfl
  · cases taken

end Behind

end Gapscript
