import Gapscript.Proofs.Run.Lines
import Gapscript.Proofs.Text.Places
import Gapscript.Report.Log

/-!
# The source lines around a place

The lines that a report shows stand in rows: one for each line, and one more below the line of the place, with
the caret (`Log.contextText_eq`). The margin of a row is as wide as the number in it needs, but at least as
three digits need, and the margin of the caret is always that of three digits. So the caret is below its
character exactly in the first 999 lines (`Position.caretColumn_eq_iff`).
-/

namespace Gapscript

namespace Position

variable (p : Position)

/-- What stands in front of a source line: its number, with a mark at the line of the place. -/
def margin (n : Nat) : String :=
  "  " ++ (if (n : Int) = p.line then ">" else " ") ++ " " ++ Log.padLeft 3 (toString n) ++ " | "

/-- The row with the caret. -/
def caretRow : String :=
  "        | " ++ "".pushn ' ' (p.column - 1).toNat ++ "".pushn '^' (max 1 p.length).toNat

/-- The rows of the line of a number. -/
def rows (lines : List String) (n : Nat) : List String :=
  (p.margin n ++ lineAt lines n) :: if (n : Int) = p.line then [p.caretRow] else []

/-- The numbers of the lines, of so many, that are at most `k` lines away. -/
def around (k : Int) (count : Nat) : List Nat :=
  (List.range' 1 count).filter fun n => p.line - k ≤ n ∧ (n : Int) ≤ p.line + k

/-- The column of the page that the first caret stands in, counted from zero. -/
def caretColumn : Option Nat := p.caretRow.toList.idxOf? '^'

/-- The column of the page that the character at the place stands in, counted from zero. -/
def shownColumn : Nat := (p.margin p.line.toNat).length + (p.column - 1).toNat

end Position

/-! ## Columns -/

theorem toList_pushn (c : Char) (n : Nat) : ("".pushn c n).toList = List.replicate n c := by
  rw [String.pushn_eq_repeat_push]
  induction n with
  | zero => rfl
  | succ n ih => rw [Nat.repeat, String.toList_push, ih, List.replicate_succ']

namespace Position

variable {p : Position}

theorem caretColumn_eq (p : Position) : p.caretColumn = some (10 + (p.column - 1).toNat) := by
  obtain ⟨m, carets⟩ : ∃ m, (max 1 p.length).toNat = m + 1 := ⟨(max 1 p.length).toNat - 1, by omega⟩
  have edge : "        | ".toList.findIdx? (· == '^') = none := by decide
  have blank : (List.replicate (p.column - 1).toNat ' ').findIdx? (· == '^') = none := by
    rw [List.findIdx?_replicate, if_neg]
    rintro ⟨-, same⟩
    cases same
  rw [caretColumn, caretRow, List.idxOf?, String.toList_append, String.toList_append, toList_pushn,
    toList_pushn, carets, List.replicate_succ, List.findIdx?_append, List.findIdx?_append, edge, blank,
    Option.map_none, Option.none_or, Option.none_or, List.findIdx?_cons, if_pos (by decide), Option.map_some,
    List.length_append, List.length_replicate, Nat.zero_add]
  rfl

theorem length_margin (n : Nat) : (p.margin n).length = 7 + max 3 (toString n).length := by
  have mark : (if (n : Int) = p.line then ">" else " ").length = 1 := by split <;> rfl
  have number : (Log.padLeft 3 (toString n)).length = max 3 (toString n).length := by
    rw [Log.padLeft, String.length_append, String.length_pushn, String.length_empty]
    omega
  rw [margin, String.length_append, String.length_append, String.length_append, String.length_append, mark,
    number]
  change 2 + 1 + 1 + max 3 _ + 3 = _
  omega

/-- The caret stands to the left of its character by the digits of the line beyond the third. -/
theorem shownColumn_eq (h : 1 ≤ p.line) :
    p.shownColumn = 10 + (p.column - 1).toNat + ((toString p.line).length - 3) := by
  obtain ⟨n, line⟩ := Int.eq_ofNat_of_zero_le (by omega : 0 ≤ p.line)
  rw [shownColumn, length_margin, line]
  change 7 + max 3 (toString n).length + _ = _ + ((toString n).length - 3)
  omega

theorem length_toString_le_three_iff (n : Nat) : (toString n).length ≤ 3 ↔ n < 1000 := by
  rw [Nat.toString_eq_ofList_toDigits, String.length_ofList]
  exact Nat.length_toDigits_le_iff (by decide) (by decide)

theorem caretColumn_eq_iff (h : 1 ≤ p.line) : p.caretColumn = some p.shownColumn ↔ p.line < 1000 := by
  obtain ⟨n, line⟩ := Int.eq_ofNat_of_zero_le (by omega : 0 ≤ p.line)
  have digits : (toString p.line).length ≤ 3 ↔ n < 1000 := by
    rw [line]
    exact length_toString_le_three_iff n
  rw [caretColumn_eq, shownColumn_eq h, Option.some_inj]
  omega

theorem pairwise_lt_around (k : Int) (count : Nat) : (p.around k count).Pairwise (· < ·) :=
  (List.pairwise_lt_range' 1).filter _

theorem mem_around (k : Int) (count n : Nat) :
    n ∈ p.around k count ↔ max 1 (p.line - k) ≤ n ∧ (n : Int) ≤ min (count : Int) (p.line + k) := by
  rw [around, List.mem_filter, List.mem_range'_1, decide_eq_true_iff]
  omega

end Position

/-! ## The page -/

/-- Rows below an empty one. -/
def page (rows : List String) : String := "\n".intercalate ("" :: "" :: rows)

theorem page_eq (rows : List String) : page rows = "\n" ++ String.join (rows.map ("\n" ++ ·)) := by
  apply String.toList_inj.1
  have ends (row : String) : ("\n" ++ row).toList = '\n' :: row.toList := by
    rw [String.toList_append]
    rfl
  rw [page, toList_join_cons, ends, String.toList_join, List.flatMap_map]
  simp only [ends]
  rfl

theorem zipIdx_eq_map (lines : List String) :
    lines.zipIdx = (List.range' 1 lines.length).map fun n : Nat => (lineAt lines n, n - 1) := by
  apply List.ext_getElem
  · rw [List.length_zipIdx, List.length_map, List.length_range']
  · intro i inside _
    have known : i < lines.length := by rwa [List.length_zipIdx] at inside
    have index : (((1 + i : Nat) : Int) - 1).toNat = i := by omega
    rw [List.getElem_zipIdx, List.getElem_map, List.getElem_range', Nat.one_mul, lineAt, index,
      List.getD_eq_getElem?_getD, List.getElem?_eq_getElem known, Nat.add_comm 0 i, Nat.add_sub_cancel_left]
    rfl

theorem join_flatMap {α : Type} (f : α → List String) (xs : List α) :
    String.join (xs.flatMap f) = String.join (xs.map fun x => String.join (f x)) := by
  induction xs with
  | nil => rfl
  | cons x xs ih => rw [List.flatMap_cons, String.join_append, ih, List.map_cons, String.join_cons]

namespace Log

variable {l : Log} {p : Position} {k : Int} {lines : List String}

theorem contextLine_eq (column : 1 ≤ p.column) (lines : List String) (n : Nat) :
    contextLine p n (lineAt lines n) = String.join ((p.rows lines n).map ("\n" ++ ·)) := by
  have row : "\n  " ++ (if (n : Int) == p.line then ">" else " ") ++ " " ++ padLeft 3 (toString (n : Int)) ++
      " | " ++ lineAt lines n = "\n" ++ (p.margin n ++ lineAt lines n) := by
    rw [Position.margin, show "\n  " = "\n" ++ "  " from rfl]
    simp only [String.append_assoc, beq_iff_eq]
    rfl
  unfold contextLine Position.rows
  dsimp only
  rw [row, List.map_cons, String.join_cons]
  by_cases here : (n : Int) = p.line
  · have below : ((n : Int) == p.line && decide (p.column > 0)) = true := by
      rw [Bool.and_eq_true, beq_iff_eq, decide_eq_true_iff]
      exact ⟨here, column⟩
    rw [if_pos below, if_pos here, List.map_singleton, String.join_cons, String.join_nil,
      String.append_empty, Position.caretRow, show "\n        | " = "\n" ++ "        | " from rfl]
    simp only [String.append_assoc]
  · have nothing : ((n : Int) == p.line && decide (p.column > 0)) = false := by
      rw [beq_false_of_ne here, Bool.false_and]
    rw [nothing, if_neg Bool.false_ne_true, if_neg here, List.map_nil, String.join_nil, String.append_empty]

/-- The first line and the end decide which lines are shown. -/
theorem contextText_eq_page (column : 1 ≤ p.column) :
    l.contextText p lines = page (((List.range' 1 lines.length).filter fun n : Nat =>
      l.firstShown p ≤ (n : Int) - 1 ∧ (n : Int) - 1 < l.endShown p lines.length).flatMap (p.rows lines)) := by
  unfold contextText
  dsimp only
  rw [page_eq, List.map_flatMap, join_flatMap, zipIdx_eq_map, List.filterMap_map, ← List.filterMap_eq_map',
    List.filterMap_filter]
  congr 2
  apply List.filterMap_congr
  intro n inside
  have positive : ((n - 1 : Nat) : Int) = (n : Int) - 1 := by
    rw [List.mem_range'_1] at inside
    omega
  rw [Function.comp_apply, positive, Int.sub_add_cancel, contextLine_eq column]
  simp only [decide_eq_true_iff]

theorem firstShown_setContextLines (size : 0 ≤ k ∧ k ≤ Number.greatestWord)
    (line : 1 ≤ p.line ∧ p.line ≤ Number.greatestWord) :
    (l.setContextLines k).firstShown p = max 0 (p.line - 1 - k) := by
  rw [firstShown, setContextLines, max_eq_right size.1]
  unfold Number.greatestWord at size line
  rw [Number.word_of_within (n := p.line - 1), Number.word_of_within]
    <;> simp only [Number.leastWord, Number.greatestWord] <;> omega

theorem endShown_of_within (size : 0 ≤ k) (line : 1 ≤ p.line) (count : Nat)
    (fits : p.line + k ≤ Number.greatestWord) :
    (l.setContextLines k).endShown p count = min (count : Int) (p.line + k) := by
  rw [endShown, setContextLines, max_eq_right size, Number.word_of_within _ fits]
  unfold Number.leastWord
  omega

/-- An end that is too large wraps to a negative number. -/
theorem endShown_of_beyond (size : 0 ≤ k ∧ k ≤ Number.greatestWord) (line : p.line ≤ Number.greatestWord)
    (count : Nat) (beyond : Number.greatestWord < p.line + k) :
    (l.setContextLines k).endShown p count < 0 := by
  rw [endShown, setContextLines, max_eq_right size.1, Number.word_of_beyond beyond (by omega)]
  unfold Number.greatestWord at size line
  omega

/-- The lines around the place are shown, each in its rows, unless the number of the last one is too large:
then no line is shown. -/
theorem contextText_eq (size : 0 ≤ k ∧ k ≤ Number.greatestWord)
    (line : 1 ≤ p.line ∧ p.line ≤ Number.greatestWord) (column : 1 ≤ p.column) :
    (l.setContextLines k).contextText p lines =
      page (if p.line + k ≤ Number.greatestWord then (p.around k lines.length).flatMap (p.rows lines)
        else []) := by
  rw [contextText_eq_page column, firstShown_setContextLines size line]
  by_cases fits : p.line + k ≤ Number.greatestWord
  · rw [if_pos fits, endShown_of_within size.1 line.1 _ fits, Position.around]
    congr 2
    apply List.filter_congr
    intro n inside
    rw [List.mem_range'_1] at inside
    rw [decide_eq_decide]
    omega
  · have before := endShown_of_beyond (l := l) size line.2 lines.length (lt_of_not_ge fits)
    rw [if_neg fits, List.filter_eq_nil_iff.2, List.flatMap_nil]
    intro n inside
    rw [List.mem_range'_1] at inside
    rw [decide_eq_true_iff]
    omega

/-- The lines around the place are shown, each once and in order, in rows of which the one of the line of the
place is marked and has the caret below it. The caret is below its character exactly if the number of the line
has at most three digits, and no line is shown at all if the number of the last one is no word. -/
theorem context_shown (size : 0 ≤ k ∧ k ≤ Number.greatestWord)
    (line : 1 ≤ p.line ∧ p.line ≤ Number.greatestWord) (column : 1 ≤ p.column) :
    (l.setContextLines k).contextText p lines =
        page (if p.line + k ≤ Number.greatestWord then (p.around k lines.length).flatMap (p.rows lines)
          else []) ∧
      (p.around k lines.length).Pairwise (· < ·) ∧
      (∀ n, n ∈ p.around k lines.length ↔
        max 1 (p.line - k) ≤ n ∧ (n : Int) ≤ min (lines.length : Int) (p.line + k)) ∧
      (p.caretColumn = some p.shownColumn ↔ p.line < 1000) :=
  ⟨contextText_eq size line column, Position.pairwise_lt_around _ _, Position.mem_around _ _,
    Position.caretColumn_eq_iff line.1⟩

theorem context_shown_middle :
    (setContextLines {} 1).contextText { line := 2, column := 3 } ["a", "bcd", "e", "f"] =
        "\n\n      1 | a\n  >   2 | bcd\n        |   ^\n      3 | e" ∧
      ({ line := 2, column := 3 } : Position).caretColumn =
        some ({ line := 2, column := 3 } : Position).shownColumn := by
  obtain ⟨shown, -, -, caret⟩ := @context_shown {} { line := 2, column := 3 } 1 ["a", "bcd", "e", "f"]
    (by decide) (by decide) (by decide)
  exact ⟨shown.trans rfl, caret.2 (by decide)⟩

/-- The caret on line 1000 is one column to the left of its character, and with the largest size the only line
of a text is not shown. -/
theorem caret_misplaced :
    ((setContextLines {} 0).contextText { line := 1000 } (List.replicate 1000 "x") =
        "\n\n  > 1000 | x\n        | ^" ∧
      ({ line := 1000 } : Position).caretColumn ≠ some ({ line := 1000 } : Position).shownColumn) ∧
    (setContextLines {} Number.greatestWord).contextText {} ["x"] = "\n" ∧
      1 ∈ ({} : Position).around Number.greatestWord ["x"].length := by
  have shown : ({ line := 1000 } : Position).around 0 1000 = [1000] := by decide +kernel
  have last : lineAt (List.replicate 1000 "x") (1000 : Nat) = "x" := by
    rw [lineAt, List.getD_eq_getElem?_getD, List.getElem?_replicate]
    rfl
  refine ⟨⟨?_, ?_⟩, ?_, ?_⟩
  · rw [contextText_eq (by decide) (by decide) (by decide), List.length_replicate, if_pos (by decide), shown,
      List.flatMap_singleton, Position.rows, last]
    rfl
  · rw [Ne, Position.caretColumn_eq_iff (by decide)]
    decide
  · rw [contextText_eq (by decide) (by decide) (by decide)]
    rfl
  · rw [Position.mem_around]
    decide

end Log

end Gapscript
