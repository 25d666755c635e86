import Gapscript.Text.Cursor
import Gapscript.Error

/-!
# Layout

White space, and with it comments, is what precedence is measured in. Parentheses are white space:
they only add to the measure.
-/

namespace Gapscript

/-- Where a scan has to stop, judged by the text ahead. -/
abbrev Terminator := Text → Bool

/-- What is said of the characters of a text is decided along the text, not by going through all characters. -/
instance (priority := high) Text.decidableForall (P : Char → Prop) [DecidablePred P] (t : List Char) :
    Decidable (∀ x ∈ t, P x) := List.decidableBAll P t

namespace Lexical

/-- White space of the language. -/
def isLayout (c : Char) : Bool :=
  c == ' ' || c == '\t' || c == '\r' || c == '\n' || c == '(' || c == ')'

/-- The number of characters of white space and comments at the start of a text; `comment` says
that the text starts inside a comment. -/
def gapFrom : (comment : Bool) → Text → Nat
  | _, [] => 0
  | true, c :: cs => gapFrom (c != '\n') cs + 1
  | false, c :: cs =>
    if isLayout c then gapFrom false cs + 1
    else if c == '/' && cs.head? == some '/' then gapFrom true cs + 1
    else 0

/-- The number of characters of white space and comments at the start of a text. -/
def gap (t : Text) : Nat := gapFrom false t

/-- The text begins with a comment. -/
def startsComment : Text → Bool
  | '/' :: '/' :: _ => true
  | _ => false

/-- The cursor after white space and comments. -/
def skipGap (c : Cursor) : Cursor := c.skip (gap c.rest)

/-- The cursor after white space and comments, and their width. -/
def measureGap (c : Cursor) : Cursor × Nat := (skipGap c, gap c.rest)

theorem gapFrom_le_length (comment : Bool) (t : Text) : gapFrom comment t ≤ t.length := by
  induction t generalizing comment with
  | nil => simp [gapFrom]
  | cons c cs ih =>
    cases comment with
    | true => simpa [gapFrom] using ih _
    | false =>
      rw [gapFrom]
      split
      · simpa using ih _
      · split
        · simpa using ih _
        · simp

theorem gap_le_length (t : Text) : gap t ≤ t.length := gapFrom_le_length false t

theorem gap_of_layout {c : Char} (layout : isLayout c = true) (t : Text) : gap (c :: t) = gap t + 1 := by
  rw [gap, gapFrom, if_pos layout, gap]

theorem gap_layout {w : Text} (layout : ∀ x ∈ w, isLayout x = true) (t : Text) :
    gap (w ++ t) = w.length + gap t := by
  induction w with
  | nil => exact (Nat.zero_add _).symm
  | cons x w ih =>
    obtain ⟨here, later⟩ := List.forall_mem_cons.mp layout
    rw [List.cons_append, gap_of_layout here, ih later, List.length_cons, Nat.add_right_comm]

theorem isLayout_of_gap_eq_zero {c : Char} {t : Text} (none : gap (c :: t) = 0) : isLayout c = false := by
  refine Bool.eq_false_iff.2 fun layout => ?_
  rw [gap_of_layout layout] at none
  cases none

theorem gapFrom_drop (comment : Bool) (t : Text) : gap (t.drop (gapFrom comment t)) = 0 := by
  induction t generalizing comment with
  | nil => cases comment <;> rfl
  | cons x t ih =>
    cases comment with
    | true => exact ih _
    | false =>
      by_cases layout : isLayout x = true
      · have longer : gapFrom false (x :: t) = gapFrom false t + 1 := by rw [gapFrom, if_pos layout]
        rw [longer]
        exact ih false
      · by_cases slashes : (x == '/' && t.head? == some '/') = true
        · have longer : gapFrom false (x :: t) = gapFrom true t + 1 := by
            rw [gapFrom, if_neg layout, if_pos slashes]
          rw [longer]
          exact ih true
        · have none : gapFrom false (x :: t) = 0 := by rw [gapFrom, if_neg layout, if_neg slashes]
          rw [none]
          exact none

theorem gap_drop (t : Text) : gap (t.drop (gap t)) = 0 := gapFrom_drop false t

theorem gap_skipGap (c : Cursor) : gap (skipGap c).rest = 0 := by
  rw [skipGap, Cursor.rest_skip]
  exact gap_drop c.rest

theorem skipGap_skipGap (c : Cursor) : skipGap (skipGap c) = skipGap c := by
  rw [skipGap, gap_skipGap]
  rfl

/-- A mismatch under the cursor. -/
def noMatch (c : Cursor) (detail : String) : ParseError := ⟨.noMatch, detail, some c.pos⟩

/-- A token under the cursor that does not belong there. -/
def unexpected (c : Cursor) (detail : String) : ParseError := ⟨.unexpectedToken, detail, some c.pos⟩

end Lexical

end Gapscript
