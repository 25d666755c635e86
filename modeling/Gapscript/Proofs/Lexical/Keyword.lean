import Gapscript.Lexical.Name
import Mathlib.Data.List.NodupEquivFin

/-!
# Words that introduce functions

A function is introduced by `function`, `func`, `fun`, `fn` or any other word that begins with `f` and has its
letters in the order of `function`. The match takes every letter from the first place that is left for it.
Nothing is lost by that, also where a letter stands in two places: what can be taken from later places can be
taken from earlier ones (`takesLetters_iff_sublist`). So a word is accepted exactly if there is any choice of
places for its letters (`function_keywords_exact`).
-/

namespace Gapscript.Lexical

/-- The match from the first places that are left finds a word exactly if its letters stand in order among the
given ones. -/
theorem takesLetters_iff_sublist (letters word : List Char) :
    takesLetters letters word = true ↔ word.Sublist letters := by
  fun_induction takesLetters letters word with
  | case1 letters => exact iff_of_true rfl (List.nil_sublist letters)
  | case2 w ws => exact iff_of_false Bool.false_ne_true (List.cons_ne_nil w ws ∘ List.eq_nil_of_sublist_nil)
  | case3 ls w ws ih =>
    -- A letter taken from a later place can be given up for this one.
    rw [ih, List.cons_sublist_cons]
  | case4 l ls w ws other ih =>
    rw [ih, List.sublist_cons_iff]
    refine ⟨.inl, fun found => found.resolve_right ?_⟩
    rintro ⟨r, same, -⟩
    exact other (List.cons.inj same).1.symm

theorem isFunctionKeyword_iff (word : String) : isFunctionKeyword word = true ↔
    word.toList.head? = some 'f' ∧ takesLetters "function".toList word.toList = true := by
  unfold isFunctionKeyword
  split
  · next later first =>
    rw [first]
    exact (and_iff_right rfl).symm
  · next other =>
    refine iff_of_false Bool.false_ne_true fun ⟨first, _⟩ => ?_
    obtain ⟨later, begins⟩ := List.head?_eq_some_iff.1 first
    exact other later begins

/-- A word introduces a function exactly if it is not empty, begins with `f`, and its letters can be found at
places of `function` that go from left to right. -/
theorem function_keywords_exact (word : String) :
    isFunctionKeyword word = true ↔
      word ≠ "" ∧ word.toList.head? = some 'f' ∧
        ∃ place : Fin word.toList.length ↪o Fin "function".toList.length,
          ∀ i, word.toList.get i = "function".toList.get (place i) := by
  rw [isFunctionKeyword_iff, takesLetters_iff_sublist, List.sublist_iff_exists_fin_orderEmbedding_get_eq]
  refine ⟨fun ⟨first, found⟩ => ⟨?_, first, found⟩, And.right⟩
  rintro rfl
  cases first

/-- Both letters `n` can be taken, and there is no third one. -/
example : isFunctionKeyword "fnn" = true ∧ isFunctionKeyword "fnnn" = false ∧ isFunctionKeyword "nf" = false := by
  decide

end Gapscript.Lexical
