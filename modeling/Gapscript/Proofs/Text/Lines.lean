import Mathlib.Data.String.Basic

/-!
# The lines of a text

Splitting a string at its line ends is splitting its characters, so lines without line ends that are
joined by line ends come back as they are, and joining the lines of a string gives the string back.
-/

namespace Gapscript

open String

theorem atEnd_after (l m r : List Char) :
    Pos.Raw.atEnd (ofList (l ++ m ++ r)) ⟨utf8Len l + utf8Len m⟩ = true ↔ r = [] := by
  rw [atEnd_iff, rawEndPos_ofList, Pos.Raw.mk_le_mk, utf8Len_append, utf8Len_append,
    ← utf8Len_eq_zero]
  omega

/-- One step of the scan, which stands behind `l` and the part `m` of a line. -/
theorem splitOnAux_cons (l m r : List Char) (c : Char) (done : List String) :
    splitOnAux (ofList (l ++ m ++ c :: r)) "\n" ⟨utf8Len l⟩ ⟨utf8Len l + utf8Len m⟩ 0 done =
      if c = '\n' then
        splitOnAux (ofList (l ++ m ++ c :: r)) "\n" ⟨utf8Len (l ++ m ++ [c])⟩
          ⟨utf8Len (l ++ m ++ [c])⟩ 0 (ofList m :: done)
      else
        splitOnAux (ofList (l ++ m ++ c :: r)) "\n" ⟨utf8Len l⟩ ⟨utf8Len l + utf8Len (m ++ [c])⟩ 0
          done := by
  have inside := mt (atEnd_after l m (c :: r)).mp (List.cons_ne_nil c r)
  have here : Pos.Raw.get (ofList (l ++ m ++ c :: r)) ⟨utf8Len l + utf8Len m⟩ = c := by
    rw [← utf8Len_append, get_of_valid]
    rfl
  have ahead : Pos.Raw.next (ofList (l ++ m ++ c :: r)) ⟨utf8Len l + utf8Len m⟩ =
      ⟨utf8Len (l ++ m ++ [c])⟩ := by
    rw [← utf8Len_append, next_of_valid, utf8Len_append (l ++ m), utf8Len_cons, utf8Len_nil,
      Nat.zero_add]
  have mark : Pos.Raw.get "\n" 0 = '\n' := rfl
  have markNext : Pos.Raw.next "\n" 0 = ⟨1⟩ := rfl
  have markEnds : Pos.Raw.atEnd "\n" ⟨1⟩ = true := rfl
  rw [splitOnAux, if_neg inside, here, ahead, mark, markNext]
  dsimp only
  rw [if_pos markEnds]
  by_cases newline : c = '\n'
  · subst newline
    have before : Pos.Raw.unoffsetBy ⟨utf8Len (l ++ m ++ ['\n'])⟩ ⟨1⟩ = ⟨utf8Len l + utf8Len m⟩ := by
      rw [utf8Len_append, utf8Len_append]
      rfl
    rw [if_pos (beq_self_eq_true '\n'), if_pos rfl, before, extract_of_valid]
  · have again : Pos.Raw.unoffsetBy ⟨utf8Len l + utf8Len m⟩ 0 = ⟨utf8Len l + utf8Len m⟩ := rfl
    rw [if_neg (mt beq_iff_eq.mp newline), if_neg newline, again, ahead,
      List.append_assoc l m [c], utf8Len_append l]

/-- Where the scan stands behind `l` and the part `m` of a line, `r` is still to be split. -/
theorem splitOnAux_newline (l m r : List Char) (done : List String) :
    splitOnAux (ofList (l ++ m ++ r)) "\n" ⟨utf8Len l⟩ ⟨utf8Len l + utf8Len m⟩ 0 done =
      done.reverse ++ (List.splitOnPPrepend (· == '\n') r m.reverse).map ofList := by
  induction r generalizing l m done with
  | nil =>
    rw [splitOnAux, if_pos ((atEnd_after l m []).mpr rfl), extract_of_valid]
    simp
  | cons c r ih =>
    rw [splitOnAux_cons, List.splitOnPPrepend_cons_eq_if]
    by_cases newline : c = '\n'
    · have next := ih (l ++ m ++ [c]) [] (ofList m :: done)
      rw [List.append_nil, List.append_assoc _ [c], List.singleton_append, utf8Len_nil,
        Nat.add_zero] at next
      rw [if_pos newline, if_pos (beq_iff_eq.mpr newline), next]
      simp
    · have next := ih l (m ++ [c]) done
      rw [← List.append_assoc, List.append_assoc _ [c], List.singleton_append] at next
      rw [if_neg newline, if_neg (mt beq_iff_eq.mp newline), next]
      simp

theorem splitOn_newline (s : String) :
    s.splitOn "\n" = (s.toList.splitOn '\n').map ofList := by
  have whole := splitOnAux_newline [] [] s.toList []
  rw [String.splitOn, if_neg (by decide)]
  simpa [List.splitOn] using whole

theorem splitOn_newline_ne_nil (s : String) : s.splitOn "\n" ≠ [] := by
  rw [splitOn_newline]
  simp

theorem notMem_of_mem_splitOnPPrepend {r m line : List Char} (free : '\n' ∉ m)
    (h : line ∈ List.splitOnPPrepend (· == '\n') r m) : '\n' ∉ line := by
  induction r generalizing m with
  | nil =>
    rw [List.splitOnPPrepend_nil, List.mem_singleton] at h
    simpa [h] using free
  | cons c r ih =>
    rw [List.splitOnPPrepend_cons_eq_if] at h
    split at h
    · rcases List.mem_cons.mp h with rfl | h
      · simpa using free
      · exact ih List.not_mem_nil h
    · next other =>
      have other : '\n' ≠ c := fun same => other (beq_iff_eq.mpr same.symm)
      exact ih (List.not_mem_cons_of_ne_of_not_mem other free) h

theorem newline_notMem_of_mem_splitOn {s line : String} (h : line ∈ s.splitOn "\n") :
    '\n' ∉ line.toList := by
  rw [splitOn_newline, List.mem_map] at h
  obtain ⟨chars, among, rfl⟩ := h
  rw [toList_ofList]
  exact notMem_of_mem_splitOnPPrepend List.not_mem_nil among

theorem toList_join (lines : List String) :
    ("\n".intercalate lines).toList = ['\n'].intercalate (lines.map String.toList) :=
  toList_intercalate

/-- A text is its lines, joined. -/
theorem join_splitOn (s : String) : "\n".intercalate (s.splitOn "\n") = s := by
  rw [← toList_inj, toList_join, splitOn_newline, List.map_map]
  have chars : String.toList ∘ ofList = id := funext fun _ => toList_ofList
  rw [chars, List.map_id, List.intercalate_splitOn]

/-- Lines without line ends are the lines of the text that joins them. -/
theorem splitOn_join {lines : List String} (some : lines ≠ [])
    (free : ∀ line ∈ lines, '\n' ∉ line.toList) : ("\n".intercalate lines).splitOn "\n" = lines := by
  rw [splitOn_newline, toList_join, List.splitOn_intercalate]
  · simp
  · simpa using free
  · simpa using some

end Gapscript
