import Gapscript.Proofs.Lexical.Block
import Gapscript.Proofs.Reading.Advance

/-!
# Blocks in blocks

The body of a block is read from a copy of its text that ends in front of the closing brace. For a block
inside of it that makes no difference (`nested_block_cut`): where the scan of the whole text passes over a
piece that ends within the body, the same piece is there when the text ends with the body, and where it
passes over a single character it does so in both (`hiddenOrComment?_within`). A run of quotes at the end
of the body can only be an empty string, in front of the brace as in front of nothing, and a backslash
there would have hidden the brace.
-/

namespace Gapscript.Lexical

variable {u T : Text} {c : Char}

/-! ## The scan of a block inside of a block -/

theorem length_le_of_mem_looks {h : Nat} {t x : Text} (visited : x ∈ looks h t) : x.length ≤ t.length := by
  induction t generalizing h with
  | nil =>
    cases h with
    | zero => cases visited
    | succ h => cases visited
  | cons c t ih =>
    cases h with
    | succ h => exact Nat.le_succ_of_le (ih visited)
    | zero =>
      rcases List.mem_cons.1 visited with rfl | later
      · exact Nat.le_refl _
      · exact Nat.le_succ_of_le (ih later)

/-- Wherever the scan of a block looks at what comes next, it still finds the end from there. -/
theorem blockLength_of_mem_looks {depth h k : Nat} (open_ : 1 ≤ depth)
    (found : blockLength depth h (u ++ '\x7d' :: T) = some u.length) (inside : k < u.length)
    (visited : (u ++ '\x7d' :: T).drop k ∈ looks h (u ++ '\x7d' :: T)) :
    ∃ depth', 1 ≤ depth' ∧
      blockLength depth' 0 (u.drop k ++ '\x7d' :: T) = some (u.drop k).length := by
  induction u generalizing depth h k with
  | nil => cases inside
  | cons c u ih =>
    rw [List.cons_append] at found visited
    -- What lies behind the first character is visited behind it.
    have later {h' : Nat} (member : (c :: (u ++ '\x7d' :: T)).drop k ∈ looks h' (u ++ '\x7d' :: T)) :
        ∃ j, k = j + 1 ∧ j < u.length ∧ (u ++ '\x7d' :: T).drop j ∈ looks h' (u ++ '\x7d' :: T) := by
      cases k with
      | zero =>
        have := length_le_of_mem_looks member
        rw [List.drop_zero, List.length_cons] at this
        omega
      | succ j => exact ⟨j, rfl, Nat.lt_of_succ_lt_succ inside, member⟩
    cases h with
    | succ h =>
      obtain ⟨j, rfl, within, member⟩ := later visited
      exact ih open_ (map_succ_eq_iff.mp found) within member
    | zero =>
      rw [looks_cons, List.mem_cons] at visited
      rcases visited with here | visited
      · obtain rfl : k = 0 := by
          have := congrArg List.length here
          rw [List.length_drop, List.length_cons] at this
          omega
        exact ⟨depth, open_, found⟩
      · obtain ⟨j, rfl, within, member⟩ := later visited
        cases hidden : hiddenOrComment? (c :: (u ++ '\x7d' :: T)) with
        | some n =>
          rw [hidden] at member
          rw [blockLength_hidden hidden] at found
          exact ih open_ (map_succ_eq_iff.mp found) within member
        | none =>
          rw [hidden] at member
          rw [blockLength_single hidden] at found
          split at found
          · exact ih (Nat.le_succ_of_le open_) (map_succ_eq_iff.mp found) within member
          · split at found
            · split at found
              · cases found
              · exact ih (by omega) (map_succ_eq_iff.mp found) within member
            · exact ih open_ (map_succ_eq_iff.mp found) within member

/-- A scan that finds its end where it stands has nothing hidden ahead and one brace open. -/
theorem blockLength_here {depth h : Nat} (found : blockLength depth h ('\x7d' :: T) = some 0) :
    h = 0 ∧ depth ≤ 1 := by
  cases h with
  | succ h =>
    obtain ⟨m, -, same⟩ := Option.map_eq_some_iff.mp found
    cases same
  | zero =>
    rw [blockLength_single (rfl : hiddenOrComment? ('\x7d' :: T) = none), if_neg (by decide),
      if_pos (by decide)] at found
    split at found
    · next last => exact ⟨rfl, last⟩
    · obtain ⟨m, -, same⟩ := Option.map_eq_some_iff.mp found
      cases same

/-- What is hidden where the scan stands is hidden in the text that is cut off at the end as well. -/
theorem hiddenOrComment?_within {depth n : Nat} (whole : hiddenOrComment? (c :: (u ++ '\x7d' :: T)) = some n)
    (found : blockLength depth 0 (c :: (u ++ '\x7d' :: T)) = some (c :: u).length) :
    hiddenOrComment? (c :: u) = some n ∧ blockLength depth (n - 1) (u ++ '\x7d' :: T) = some u.length := by
  rw [blockLength_hidden whole] at found
  have behind := map_succ_eq_iff.mp found
  have covered := hidden_le_of_blockLength behind
  exact ⟨hiddenOrComment?_cut_some (List.cons_ne_nil _ _) rfl whole (by omega), behind⟩

/-- Of the braces that the scan has open, those opened last are closed first, and the scan of the text
that is cut off at the end finds their end as well. -/
theorem blockLength_inner {depth outer h : Nat} (inner : 1 ≤ depth) (deeper : 1 ≤ outer)
    (found : blockLength (depth + outer) h (u ++ '\x7d' :: T) = some u.length) :
    ∃ q rest, u = q ++ '\x7d' :: rest ∧ blockLength depth h (u ++ '\x7d' :: T) = some q.length ∧
      blockLength depth h u = some q.length := by
  -- The scans behind one more character find their ends one character further on.
  have longer {depth depth' h h' : Nat} {c : Char} {u : Text}
      (step : ∀ t, t = u ∨ t = u ++ '\x7d' :: T →
        blockLength depth h (c :: t) = (blockLength depth' h' t).map (· + 1))
      (behind : ∃ q rest, u = q ++ '\x7d' :: rest ∧ blockLength depth' h' (u ++ '\x7d' :: T) = some q.length ∧
        blockLength depth' h' u = some q.length) :
      ∃ q rest, c :: u = q ++ '\x7d' :: rest ∧
        blockLength depth h (c :: u ++ '\x7d' :: T) = some q.length ∧ blockLength depth h (c :: u) = some q.length := by
    obtain ⟨q, rest, split, whole, alone⟩ := behind
    refine ⟨c :: q, rest, congrArg (c :: ·) split, ?_, ?_⟩
    · exact (step _ (.inr rfl)).trans (by rw [whole]; rfl)
    · exact (step _ (.inl rfl)).trans (by rw [alone]; rfl)
  induction u generalizing depth h with
  | nil =>
    have last := (blockLength_here found).2
    omega
  | cons c u ih =>
    rw [List.cons_append] at found
    cases h with
    | succ h => exact longer (fun t _ => rfl) (ih inner (map_succ_eq_iff.mp found))
    | zero =>
      cases whole : hiddenOrComment? (c :: (u ++ '\x7d' :: T)) with
      | some n =>
        obtain ⟨alone, behind⟩ := hiddenOrComment?_within whole found
        refine longer (fun t ht => ?_) (ih inner behind)
        rcases ht with rfl | rfl
        · exact blockLength_hidden alone
        · exact blockLength_hidden whole
      | none =>
        have alone : hiddenOrComment? (c :: u) = none :=
          hiddenOrComment?_cut_none (List.cons_ne_nil _ _) rfl whole
        have single (t : Text) (ht : t = u ∨ t = u ++ '\x7d' :: T) : hiddenOrComment? (c :: t) = none := by
          rcases ht with rfl | rfl
          · exact alone
          · exact whole
        rw [blockLength_single whole] at found
        split at found
        · next opens =>
          refine longer (fun t ht => ?_) (ih (h := 0) (show 1 ≤ depth + 1 by omega) ?_)
          · rw [blockLength_single (single t ht), if_pos opens]
          · rw [Nat.add_right_comm]
            exact map_succ_eq_iff.mp found
        · next other =>
          split at found
          · next closes =>
            rw [if_neg (by omega)] at found
            by_cases last : depth ≤ 1
            · refine ⟨[], u, by rw [beq_iff_eq.mp closes]; rfl, ?_, ?_⟩
              · exact (blockLength_single whole).trans (by rw [if_neg other, if_pos closes, if_pos last]; rfl)
              · exact (blockLength_single alone).trans (by rw [if_neg other, if_pos closes, if_pos last]; rfl)
            · refine longer (fun t ht => ?_) (ih (h := 0) (show 1 ≤ depth - 1 by omega) ?_)
              · rw [blockLength_single (single t ht), if_neg other, if_pos closes, if_neg last]
              · rw [← Nat.sub_add_comm inner]
                exact map_succ_eq_iff.mp found
          · next plain =>
            refine longer (fun t ht => ?_) (ih inner (map_succ_eq_iff.mp found))
            rw [blockLength_single (single t ht), if_neg other, if_neg plain]

/-- What a scan behind the first character measures. -/
theorem split_cons {n? : Option Nat} {n : Nat} {t : Text} (found : n?.map (· + 1) = some n)
    (behind : ∀ m, n? = some m → ∃ S T, t = S ++ '\x7d' :: T ∧ m = S.length) :
    ∃ S T, c :: t = S ++ '\x7d' :: T ∧ n = S.length := by
  obtain ⟨m, measured, rfl⟩ := Option.map_eq_some_iff.mp found
  obtain ⟨S, T, rfl, rfl⟩ := behind m measured
  exact ⟨c :: S, T, rfl, rfl⟩

/-- What the scan of a block measures ends in front of a brace. -/
theorem split_of_blockLength {depth h n : Nat} {t : Text} (found : blockLength depth h t = some n) :
    ∃ S T, t = S ++ '\x7d' :: T ∧ n = S.length := by
  fun_induction blockLength depth h t generalizing n with
  | case1 => cases found
  | case2 depth h c t ih => exact split_cons found fun m => ih
  | case3 depth c t k hidden ih => exact split_cons found fun m => ih
  | case4 depth c t single opens ih => exact split_cons found fun m => ih
  | case5 depth c t single other closes last =>
    cases found
    exact ⟨[], t, by rw [beq_iff_eq.mp closes]; rfl, rfl⟩
  | case6 depth c t single other closes inner ih => exact split_cons found fun m => ih
  | case7 depth c t single other plain ih => exact split_cons found fun m => ih

/-- A block, and what stands behind it. -/
theorem parts_of_block {c body after : Cursor} (read : block c = .ok (body, after)) :
    ∃ S T pos, c = ⟨'\x7b' :: (S ++ '\x7d' :: T), pos⟩ ∧ body = ⟨S, pos.after '\x7b'⟩ ∧
      after = ⟨T, (pos.after '\x7b').afterText (S ++ ['\x7d'])⟩ ∧
      blockLength 1 0 (S ++ '\x7d' :: T) = some S.length := by
  obtain ⟨t, pos, rfl⟩ : ∃ t pos, c = ⟨'\x7b' :: t, pos⟩ := by
    obtain ⟨t, pos⟩ := c
    unfold block Cursor.consume? Cursor.startsWith at read
    split at read
    · cases read
    · next start opened =>
      split at opened
      · next brace =>
        obtain ⟨t, rfl⟩ := List.isPrefixOf_iff_prefix.mp brace
        exact ⟨t, pos, rfl⟩
      · cases opened
  have ends := read
  rw [block_eq] at ends
  split at ends
  · next n found =>
    obtain ⟨S, T, rfl, rfl⟩ := split_of_blockLength found
    rw [block_of_length pos found] at read
    cases read
    exact ⟨S, T, pos, rfl, rfl, rfl, found⟩
  · cases ends

end Gapscript.Lexical

namespace Gapscript

open Lexical

/-- Where the scan of a block comes to a brace that opens one inside of it, the block read from there is
the same in the whole text and in the body alone, and it ends within the body. -/
theorem nested_block_cut {c body after : Cursor} (read : block c = .ok (body, after)) {k : Nat}
    (inside : k < body.rest.length) (brace : (c.next.skip k).rest.head? = some '\x7b')
    (visited : (c.next.skip k).rest ∈ looks 0 c.next.rest) :
    ∃ inner whole part, block (c.next.skip k) = .ok (inner, whole) ∧
      block (body.skip k) = .ok (inner, part) ∧ whole.pos = part.pos ∧ body.Reaches part ∧
      whole.rest = part.rest ++ '\x7d' :: after.rest := by
  obtain ⟨S, T, pos, rfl, rfl, rfl, found⟩ := parts_of_block read
  rw [Cursor.next_cons] at brace visited ⊢
  rw [Cursor.rest_skip] at brace visited
  obtain ⟨outer, deeper, ends⟩ := blockLength_of_mem_looks (Nat.le_refl 1) found inside visited
  obtain ⟨v, opened⟩ : ∃ v, S.drop k = '\x7b' :: v := by
    cases ahead : S.drop k with
    | nil => exact absurd (List.drop_eq_nil_iff.mp ahead) (Nat.not_le.mpr inside)
    | cons x v =>
      rw [List.drop_append_of_le_length (Nat.le_of_lt inside), ahead] at brace
      cases brace
      exact ⟨v, rfl⟩
  have taken : (S ++ '\x7d' :: T).take k = S.take k := List.take_append_of_le_length (Nat.le_of_lt inside)
  have dropped : (S ++ '\x7d' :: T).drop k = '\x7b' :: (v ++ '\x7d' :: T) := by
    rw [List.drop_append_of_le_length (Nat.le_of_lt inside), opened]
    rfl
  -- Behind the brace the scan has one more block open than the block it began with.
  have unhidden (t : Text) : hiddenOrComment? ('\x7b' :: t) = none := rfl
  rw [opened, List.cons_append, blockLength_single (unhidden _), if_pos (by decide), Nat.add_comm,
    List.length_cons, map_succ_eq_iff] at ends
  obtain ⟨q, rest, rfl, whole, alone⟩ := blockLength_inner (Nat.le_refl 1) deeper ends
  have cut := block_of_length ((pos.after '\x7b').afterText (S.take k)) alone
  rw [List.append_assoc, List.cons_append] at whole dropped
  have reached := block_of_length ((pos.after '\x7b').afterText (S.take k)) whole
  have skipped : Cursor.skip k ⟨S, pos.after '\x7b'⟩ =
      ⟨'\x7b' :: (q ++ '\x7d' :: rest), (pos.after '\x7b').afterText (S.take k)⟩ := by
    rw [Cursor.skip_eq, opened]
  have within := (Cursor.reaches_skip ⟨S, pos.after '\x7b'⟩ k).trans (skipped ▸ (passes_block cut).reaches)
  rw [skipped, Cursor.skip_eq]
  dsimp only
  rw [taken, dropped]
  exact ⟨_, _, _, reached, cut, rfl, within, rfl⟩

/-- Both blocks end with an empty string, and in the inner one a string, a comment and an escape hide
braces. -/
theorem nested_block_cut_hidden :
    let c : Cursor := .start "\x7ba(\x7b'\x7d'! // \x7d\n\\\x7d ''\x7d)\"\"\x7d 'x" "w"
    ∃ body after inner whole part, block c = .ok (body, after) ∧ 2 < body.rest.length ∧
      (c.next.skip 2).rest.head? = some '\x7b' ∧ (c.next.skip 2).rest ∈ looks 0 c.next.rest ∧
      block (c.next.skip 2) = .ok (inner, whole) ∧ block (body.skip 2) = .ok (inner, part) := by
  intro c
  have read : ∃ body after, block c = .ok (body, after) ∧ 2 < body.rest.length :=
    ⟨_, _, rfl, by decide⟩
  obtain ⟨body, after, read, inside⟩ := read
  have brace : (c.next.skip 2).rest.head? = some '\x7b' := rfl
  have visited : (c.next.skip 2).rest ∈ looks 0 c.next.rest := by decide
  obtain ⟨inner, whole, part, outside, within, -⟩ := nested_block_cut read inside brace visited
  exact ⟨body, after, inner, whole, part, read, inside, brace, visited, outside, within⟩

end Gapscript
