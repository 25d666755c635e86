import Gapscript.Statement.Parser

/-!
# Reading moves forward

`c.Reaches d` says that `d` lies further along in the text of `c`, and `c.Passes d` that something
was read on the way. Every lexical reader that succeeds reaches the cursor it returns; those that
read a word, a token or a literal pass something.
-/

namespace Gapscript

namespace Cursor

/-- The other cursor lies further along in the same text. -/
def Reaches (c d : Cursor) : Prop := ∃ n, d = c.skip n

/-- The other cursor lies further along, and something stands between the two. -/
def Passes (c d : Cursor) : Prop := c.Reaches d ∧ d.rest.length < c.rest.length

theorem skip_skip (c : Cursor) (m n : Nat) : (c.skip m).skip n = c.skip (m + n) := by
  induction m generalizing c with
  | zero => rw [skip_zero, Nat.zero_add]
  | succ m ih => rw [skip_succ, ih, Nat.succ_add, skip_succ]

theorem Reaches.refl (c : Cursor) : c.Reaches c := ⟨0, rfl⟩

theorem reaches_skip (c : Cursor) (n : Nat) : c.Reaches (c.skip n) := ⟨n, rfl⟩

theorem reaches_next (c : Cursor) : c.Reaches c.next := ⟨1, rfl⟩

theorem reaches_skipGap (c : Cursor) : c.Reaches (Lexical.skipGap c) := reaches_skip c _

theorem Reaches.trans {c d e : Cursor} (h : c.Reaches d) (k : d.Reaches e) : c.Reaches e := by
  obtain ⟨m, rfl⟩ := h
  obtain ⟨n, rfl⟩ := k
  exact ⟨m + n, skip_skip c m n⟩

theorem Reaches.length_le {c d : Cursor} (h : c.Reaches d) : d.rest.length ≤ c.rest.length := by
  obtain ⟨n, rfl⟩ := h
  rw [rest_skip, List.length_drop]
  omega

theorem Reaches.skipGap {c d : Cursor} (h : c.Reaches d) : c.Reaches (Lexical.skipGap d) :=
  h.trans (reaches_skipGap d)

theorem Passes.reaches {c d : Cursor} (h : c.Passes d) : c.Reaches d := h.1

theorem Passes.length_lt {c d : Cursor} (h : c.Passes d) : d.rest.length < c.rest.length := h.2

theorem Passes.then {c d e : Cursor} (h : c.Passes d) (k : d.Reaches e) : c.Passes e :=
  ⟨h.1.trans k, Nat.lt_of_le_of_lt k.length_le h.2⟩

theorem Reaches.then {c d e : Cursor} (h : c.Reaches d) (k : d.Passes e) : c.Passes e :=
  ⟨h.trans k.1, Nat.lt_of_lt_of_le k.2 h.length_le⟩

theorem Passes.skipGap {c d : Cursor} (h : c.Passes d) : c.Passes (Lexical.skipGap d) :=
  h.then (reaches_skipGap d)

/-- Skipping at least one of the characters that are there passes something. -/
theorem passes_skip {c : Cursor} {n : Nat} (hn : 0 < n) (hc : c.rest ≠ []) : c.Passes (c.skip n) := by
  refine ⟨reaches_skip c n, ?_⟩
  have := List.length_pos_iff.2 hc
  rw [rest_skip, List.length_drop]
  omega

theorem passes_next {c : Cursor} (hc : c.rest ≠ []) : c.Passes c.next := passes_skip Nat.one_pos hc

theorem rest_ne_nil_of_startsWith {c : Cursor} {s : String} (hs : s.toList ≠ [])
    (h : c.startsWith s = true) : c.rest ≠ [] := by
  intro hc
  rw [startsWith, hc, List.isPrefixOf_iff_prefix, List.prefix_nil] at h
  exact hs h

theorem reaches_consume? {c d : Cursor} {token : String} (h : c.consume? token = some d) : c.Reaches d := by
  unfold consume? at h
  split at h
  · cases h
    exact reaches_skip c _
  · cases h

theorem passes_consume? {c d : Cursor} {s : String} (hs : s.toList ≠ []) (h : c.consume? s = some d) :
    c.Passes d := by
  unfold consume? at h
  split at h
  · next hstart =>
    cases h
    have hlen : 0 < s.length := by
      rw [← String.length_toList]
      exact List.length_pos_iff.2 hs
    exact passes_skip hlen (rest_ne_nil_of_startsWith hs hstart)
  · cases h

end Cursor

namespace Lexical

open Cursor

/-! ## Words and tokens -/

theorem isLayout_of_isLineSpace {x : Char} (h : Text.isLineSpace x = true) : isLayout x = true := by
  unfold Text.isLineSpace at h
  unfold isLayout
  rw [h, Bool.true_or, Bool.true_or]

theorem reaches_keyword? {c d : Cursor} {word : String} (h : keyword? word c = some d) : c.Reaches d := by
  unfold keyword? at h
  split at h
  · next hd =>
    split at h
    · cases h
    · cases h
      exact reaches_consume? hd
  · cases h

theorem passes_keyword? {c d : Cursor} {word : String} (hw : word.toList ≠ [])
    (h : keyword? word c = some d) : c.Passes d := by
  unfold keyword? at h
  split at h
  · next hd =>
    split at h
    · cases h
    · cases h
      exact passes_consume? hw hd
  · cases h

theorem wordLength_nil (term : Terminator) (first : Bool) : wordLength term first [] = 0 := rfl

theorem passes_identifier {c d : Cursor} {term : Terminator} {name : String}
    (h : identifier term c = .ok (name, d)) : c.Passes d := by
  unfold identifier at h
  split at h
  · cases h
  · next hn =>
    cases h
    refine passes_skip (Nat.pos_of_ne_zero hn) fun hc => hn ?_
    rw [hc, wordLength_nil]

theorem passes_bindingName {c d : Cursor} {name : String} (h : bindingName c = .ok (name, d)) :
    c.Passes d := by
  unfold bindingName at h
  split at h
  · split at h
    · cases h
    · exact passes_identifier h
  · exact passes_identifier h

theorem passes_chunk {c d : Cursor} {term : Terminator} {t : Text} (h : chunk term c = .ok (t, d)) :
    c.Passes d := by
  unfold chunk at h
  split at h
  · cases h
  · next hn heq =>
    cases h
    refine passes_skip (Nat.pos_of_ne_zero hn) fun hc => ?_
    rw [hc] at heq
    cases heq
    exact hn rfl

theorem passes_statementEnd {c d : Cursor} {debug : Bool} (h : statementEnd c = .ok (debug, d)) :
    c.Passes d := by
  unfold statementEnd at h
  split at h
  · next hc =>
    cases h
    exact passes_next (by rw [hc]; exact List.cons_ne_nil _ _)
  · split at h
    · cases h
    · next hn =>
      cases h
      refine passes_skip (Nat.pos_of_ne_zero hn) fun hc => hn ?_
      rw [hc]
      rfl

/-! ## Strings, numbers and literals -/

theorem passes_quotedString {c d : Cursor} {t : Text} (h : quotedString c = .ok (t, d)) :
    c.Passes d := by
  unfold quotedString at h
  split at h
  · next heq =>
    cases h
    unfold quoted? at heq
    split at heq
    · cases heq
    · next hq =>
      have hc : c.rest ≠ [] := by
        intro hc
        rw [hc] at hq
        cases hq
      dsimp only at heq
      split at heq
      · cases heq
        exact passes_skip (Nat.succ_pos _) hc
      · obtain ⟨⟨s, n⟩, -, hn⟩ := Option.map_eq_some_iff.1 heq
        cases hn
        exact passes_skip (by simp only [List.length_cons]; omega) hc
  · cases h

theorem digits_nil : digits [] = [] := rfl

theorem numeral_length_pos {t : Text} {v : Value} {n : Nat} (h : numeral t = .ok (v, n)) :
    0 < n ∧ t ≠ [] := by
  unfold numeral at h
  dsimp only at h
  split at h
  · cases h
  · next hw =>
    have ht : t ≠ [] := by
      intro ht
      rw [ht, digits_nil] at hw
      exact hw rfl
    split at h
    · cases h
      exact ⟨Nat.succ_pos _, ht⟩
    · split at h
      · cases h
        exact ⟨by omega, ht⟩
      · cases h

theorem passes_number {c d : Cursor} {v : Value} (h : number c = .ok (v, d)) : c.Passes d := by
  unfold number at h
  split at h
  · cases h
  · next hn =>
    dsimp only at h
    split at h
    · cases h
    · cases h
      exact passes_skip (numeral_length_pos hn).1 (numeral_length_pos hn).2

theorem passes_firstWord? {α : Type} {c d : Cursor} {a : α} {words : List (String × α)}
    (hw : ∀ w ∈ words, w.1.toList ≠ []) (h : firstWord? c words = some (a, d)) : c.Passes d := by
  induction words with
  | nil => cases h
  | cons w words ih =>
    rw [firstWord?] at h
    split at h
    · next hd =>
      cases h
      exact passes_keyword? (hw w List.mem_cons_self) hd
    · exact ih (fun v hv => hw v (List.mem_cons_of_mem _ hv)) h

theorem literalWords_ne_nil : ∀ w ∈ literalWords, w.1.toList ≠ [] := by
  simp [literalWords]

theorem passes_literal {c d : Cursor} {v : Value} (h : literal c = .ok (v, d)) : c.Passes d := by
  unfold literal at h
  split at h
  · next heq =>
    cases h
    exact passes_firstWord? literalWords_ne_nil heq
  · split at h
    · cases hq : quotedString c with
      | error e => rw [hq] at h; cases h
      | ok r =>
        rw [hq] at h
        cases h
        exact passes_quotedString hq
    · exact passes_number h

/-! ## Brackets -/

theorem passes_block {c body d : Cursor} (h : block c = .ok (body, d)) : c.Passes d := by
  unfold block at h
  split at h
  · cases h
  · next hstart =>
    split at h
    · cases h
      exact (passes_consume? (by decide) hstart).then (reaches_skip _ _)
    · cases h

end Lexical

end Gapscript
