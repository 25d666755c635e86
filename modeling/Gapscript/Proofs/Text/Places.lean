import Gapscript.Proofs.Text.Lines
import Gapscript.Text.Cursor

/-!
# Places among lines

Lines that are joined by line ends are one text, and moving a place over that text counts its lines
and the characters of each. So a place that is reached from the start of a line is a place of the lines
(`Stands.within`), and the text ahead of it is the text of the lines from there on (`Stands.textFrom_eq`).
-/

namespace Gapscript

/-- The line of a number, counted from one. -/
def lineAt (lines : List String) (n : Int) : String := lines.getD (n - 1).toNat ""

/-- The text of some lines from a place on. -/
def textFrom (lines : List String) (p : Position) : Text :=
  ("\n".intercalate (lines.drop (p.line - 1).toNat)).toList.drop (p.column - 1).toNat

/-- The place is one of a line, or the end of one. -/
structure Position.Within (lines : List String) (p : Position) : Prop where
  line_pos : 1 ≤ p.line
  line_le : p.line ≤ lines.length
  column_pos : 1 ≤ p.column
  column_le : p.column ≤ 1 + (lineAt lines p.line).length

/-- The text of the lines behind a line. -/
def textBehind (lines : List String) : Text := lines.flatMap fun line => '\n' :: line.toList

theorem toList_join_cons (line : String) (lines : List String) :
    ("\n".intercalate (line :: lines)).toList = line.toList ++ textBehind lines := by
  rw [toList_join, List.map_cons]
  induction lines generalizing line with
  | nil => simp [textBehind]
  | cons next lines ih =>
    rw [List.map_cons, List.intercalate_cons_cons, ih next, List.append_assoc]
    rfl

theorem toList_join_append {lines : List String} (some : lines ≠ []) (others : List String) :
    ("\n".intercalate (lines ++ others)).toList =
      ("\n".intercalate lines).toList ++ textBehind others := by
  obtain ⟨line, lines, rfl⟩ := List.exists_cons_of_ne_nil some
  rw [List.cons_append, toList_join_cons, toList_join_cons, textBehind, List.flatMap_append,
    List.append_assoc]
  rfl

/-- At the place, which is behind the part `u` of a line, `rest` is the text ahead. -/
inductive Stands (lines : List String) (p : Position) (rest : Text) : Prop
  | intro (before : List String) (u v : Text) (later : List String)
    (split : lines = before ++ String.ofList (u ++ v) :: later)
    (line : p.line = before.length + 1) (column : p.column = u.length + 1)
    (ahead : rest = v ++ textBehind later)

namespace Stands

variable {lines : List String} {p : Position} {rest : Text}

/-- A line begins in its first column. -/
theorem start {before lines : List String} (some : lines ≠ []) (line : p.line = before.length + 1)
    (column : p.column = 1) : Stands (before ++ lines) p ("\n".intercalate lines).toList := by
  obtain ⟨line, later, rfl⟩ := List.exists_cons_of_ne_nil some
  refine ⟨before, [], line.toList, later, ?_, ‹_›, ?_, toList_join_cons line later⟩
  · rw [List.nil_append, String.ofList_toList]
  · rw [column]
    rfl

/-- Over a character the place moves as the text does: a line end leads to the next line, and any other
character stands in the same line. -/
theorem after {c : Char} (free : ∀ line ∈ lines, '\n' ∉ line.toList) (h : Stands lines p (c :: rest)) :
    Stands lines (p.after c) rest := by
  obtain ⟨before, u, v, later, split, line, column, ahead⟩ := h
  cases v with
  | nil =>
    cases later with
    | nil => cases ahead
    | cons next later =>
      rw [textBehind, List.nil_append, List.flatMap_cons, List.cons_append] at ahead
      obtain ⟨rfl, rfl⟩ := List.cons.inj ahead
      refine ⟨before ++ [String.ofList (u ++ [])], [], next.toList, later, ?_, ?_, rfl, rfl⟩
      · rw [split, List.nil_append, String.ofList_toList, List.append_assoc, List.singleton_append]
      · rw [List.length_append, List.length_singleton]
        change p.line + 1 = _
        rw [line]
        rfl
  | cons x v =>
    rw [List.cons_append] at ahead
    obtain ⟨rfl, rfl⟩ := List.cons.inj ahead
    have inside : c ∈ (String.ofList (u ++ c :: v)).toList := by simp
    have other : c ≠ '\n' := by
      rintro rfl
      exact free _ (by rw [split]; simp) inside
    refine ⟨before, u ++ [c], v, later, ?_, ?_, ?_, rfl⟩
    · rw [split, List.append_assoc, List.singleton_append]
    · rw [Position.after, if_neg other]
      exact line
    · rw [Position.after, if_neg other, List.length_append, List.length_singleton]
      change p.column + 1 = _
      rw [column]
      rfl

theorem afterText {t : Text} (free : ∀ line ∈ lines, '\n' ∉ line.toList)
    (h : Stands lines p (t ++ rest)) : Stands lines (p.afterText t) rest := by
  induction t generalizing p with
  | nil => exact h
  | cons c t ih => exact ih (h.after free)

theorem within (h : Stands lines p rest) : p.Within lines := by
  obtain ⟨before, u, v, later, rfl, line, column, -⟩ := h
  refine ⟨by omega, ?_, by omega, ?_⟩
  · rw [line, List.length_append, List.length_cons]
    omega
  · have here : lineAt (before ++ String.ofList (u ++ v) :: later) p.line = String.ofList (u ++ v) := by
      rw [lineAt, line, Int.add_sub_cancel, Int.toNat_natCast, List.getD_eq_getElem?_getD,
        List.getElem?_append_right (Nat.le_refl _), Nat.sub_self]
      rfl
    rw [here, column, ← String.length_toList, String.toList_ofList, List.length_append]
    omega

theorem textFrom_eq (h : Stands lines p rest) : textFrom lines p = rest := by
  obtain ⟨before, u, v, later, rfl, line, column, ahead⟩ := h
  rw [textFrom, line, column, Int.add_sub_cancel, Int.add_sub_cancel, Int.toNat_natCast,
    Int.toNat_natCast, List.drop_left, toList_join_cons, String.toList_ofList, ahead,
    List.append_assoc, List.drop_left]

end Stands

end Gapscript
