import Gapscript.Text.Blank

/-!
# Trimmed texts

What is trimmed from the end of a text is characters of the kind that is trimmed, and what is left does not
end in one. A text that is read up to a stop is cut in front of it.
-/

namespace Gapscript.Text

variable {p : Char → Bool} {t u : Text}

/-- What was dropped from the end of a text. -/
theorem exists_of_dropEnd (p : Char → Bool) (t : Text) : ∃ u, t = dropEnd p t ++ u ∧ ∀ x ∈ u, p x = true := by
  refine ⟨(t.reverse.takeWhile p).reverse, ?_, fun x hx => ?_⟩
  · rw [dropEnd, ← List.reverse_append, List.takeWhile_append_dropWhile, List.reverse_reverse]
  · exact List.all_eq_true.1 List.all_takeWhile x (List.mem_reverse.1 hx)

/-- Nothing is dropped from a text that ends otherwise. -/
theorem dropEnd_eq_self (h : ∀ x ∈ t.getLast?, p x = false) : dropEnd p t = t := by
  rw [dropEnd]
  cases reversed : t.reverse with
  | nil => simpa using reversed.symm
  | cons x r =>
    have last : x ∈ t.getLast? := by rw [← List.head?_reverse, reversed]; rfl
    rw [List.dropWhile_cons_of_neg (by simp [h x last]), ← reversed, List.reverse_reverse]

theorem dropEnd_append (h : ∀ x ∈ u, p x = true) : dropEnd p (t ++ u) = dropEnd p t := by
  have all : ∀ x ∈ u.reverse, p x = true := fun x hx => h x (List.mem_reverse.1 hx)
  rw [dropEnd, dropEnd, List.reverse_append, List.dropWhile_append_of_pos all]

/-- What is left does not end in what is dropped. -/
theorem not_of_mem_getLast?_dropEnd {x : Char} (h : x ∈ (dropEnd p t).getLast?) : p x = false := by
  have stopped := List.head?_dropWhile_not p t.reverse
  rw [dropEnd, List.getLast?_reverse] at h
  rw [h] at stopped
  exact stopped

/-- A text that does not begin with white space is trimmed at its end. -/
theorem trim_eq_dropEnd (h : ∀ x ∈ t.head?, isBlank x = false) : trim t = dropEnd isBlank t := by
  rw [trim]
  cases t with
  | nil => rfl
  | cons x t => rw [List.dropWhile_cons_of_neg (by simp [h x rfl])]

/-- A trimmed text does not begin with white space. -/
theorem not_isBlank_of_mem_head?_trim {x : Char} (h : x ∈ (trim t).head?) : isBlank x = false := by
  obtain ⟨u, whole, -⟩ := exists_of_dropEnd isBlank (t.dropWhile isBlank)
  have stopped := List.head?_dropWhile_not isBlank t
  have first : x ∈ (t.dropWhile isBlank).head? := by
    obtain ⟨r, cons⟩ := List.head?_eq_some_iff.1 h
    rw [trim] at cons
    rw [whole, cons]
    rfl
  rw [first] at stopped
  exact stopped

/-- A text in which a stop stands, cut there. -/
theorem exists_of_takeWhile {stop : Char} {body : Text} (h : t.takeWhile (· != stop) = body)
    (ended : body.length ≠ t.length) : ∃ u, t = body ++ stop :: u := by
  have whole := List.takeWhile_append_dropWhile (p := (· != stop)) (l := t)
  rw [h] at whole
  cases rest : t.dropWhile (· != stop) with
  | nil =>
    rw [rest, List.append_nil] at whole
    exact absurd (congrArg List.length whole) ended
  | cons y u =>
    have close := List.head?_dropWhile_not (· != stop) t
    rw [rest] at close
    have same : y = stop := by simpa using close
    exact ⟨u, by rw [← same, ← rest, whole]⟩

/-- The text in front of the first stop. -/
theorem takeWhile_stop {stop : Char} (h : stop ∉ t) (u : Text) : (t ++ stop :: u).takeWhile (· != stop) = t := by
  rw [List.takeWhile_append_of_pos, List.takeWhile_cons_of_neg, List.append_nil]
  · simp
  · intro x hx
    simpa using fun same : x = stop => h (same ▸ hx)

end Gapscript.Text
