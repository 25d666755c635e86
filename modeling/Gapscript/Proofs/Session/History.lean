import Gapscript.Proofs.Text.Lines
import Gapscript.Proofs.Text.Trim
import Gapscript.Proofs.Run.Positions
import Gapscript.Session.History

/-!
# Histories that are saved and read again

A saved history is one text with an entry to a line. Reading goes on up to the first line that is too long,
drops a carriage return at the end of a line, and passes over empty lines (`ofText_save`). So the last entries
come back unchanged exactly if each of them fits and ends otherwise (`entries_eq_self_iff`).
-/

namespace Gapscript.History

variable {h : History} {line : String} {lines typed : List String}

/-! ## Reading lines -/

/-- The line can be read, and so can what is behind it. -/
def short (line : String) : Bool := Text.bytes line.toList < lineLimit

/-- A line without a carriage return at its end. -/
def withoutReturn (line : String) : String := String.ofList (dropReturn line.toList)

/-- The entries that are read from some lines. -/
def entries (lines : List String) : List String := ((lines.takeWhile short).map withoutReturn).filter (· ≠ "")

theorem withoutReturn_eq_self_iff : withoutReturn line = line ↔ line.toList.getLast? ≠ some '\r' := by
  rw [withoutReturn, dropReturn]
  by_cases returns : line.toList.getLast? = some '\r'
  · rw [if_pos returns]
    refine iff_of_false (fun same => ?_) (not_not_intro returns)
    have length := congrArg (·.toList.length) same
    have some : line.toList ≠ [] := by
      intro none
      rw [none] at returns
      cases returns
    have positive := List.length_pos_iff.2 some
    rw [String.toList_ofList, List.length_dropLast] at length
    omega
  · rw [if_neg returns, String.ofList_toList]
    exact iff_of_true rfl returns

theorem entries_cons_long (h : short line = false) : entries (line :: lines) = [] := by
  rw [entries, List.takeWhile_cons_of_neg (by simp [h])]
  rfl

theorem entries_cons_short (h : short line = true) :
    entries (line :: lines) =
      if withoutReturn line = "" then entries lines else withoutReturn line :: entries lines := by
  rw [entries, List.takeWhile_cons_of_pos h, List.map_cons, List.filter_cons]
  by_cases empty : withoutReturn line = ""
  · rw [if_pos empty, if_neg (by simp [empty])]
    rfl
  · rw [if_neg empty, if_pos (by simp [empty])]
    rfl

theorem length_entries_le (lines : List String) : (entries lines).length ≤ lines.length := by
  induction lines with
  | nil => exact Nat.le_refl 0
  | cons line lines ih =>
    cases fits : short line with
    | false => simp [entries_cons_long fits]
    | true =>
      rw [entries_cons_short fits]
      split
      · exact Nat.le_succ_of_le ih
      · exact Nat.succ_le_succ ih

/-- Lines are read unchanged exactly if none of them is too long, empty, or ends in a carriage return. -/
theorem entries_eq_self_iff :
    entries lines = lines ↔
      ∀ line ∈ lines, line ≠ "" ∧ Text.bytes line.toList < lineLimit ∧ line.toList.getLast? ≠ some '\r' := by
  induction lines with
  | nil => exact iff_of_true rfl fun line hl => absurd hl List.not_mem_nil
  | cons line lines ih =>
    rw [List.forall_mem_cons, ← ih, ← withoutReturn_eq_self_iff]
    by_cases fits : Text.bytes line.toList < lineLimit
    · rw [entries_cons_short (decide_eq_true fits)]
      by_cases empty : withoutReturn line = ""
      · rw [if_pos empty]
        constructor
        · intro same
          have shorter := length_entries_le lines
          rw [same, List.length_cons] at shorter
          omega
        · rintro ⟨⟨some, -, unchanged⟩, -⟩
          exact absurd (unchanged.symm.trans empty) some
      · rw [if_neg empty, List.cons_eq_cons]
        constructor
        · rintro ⟨unchanged, later⟩
          exact ⟨⟨unchanged ▸ empty, fits, unchanged⟩, later⟩
        · rintro ⟨⟨-, -, unchanged⟩, later⟩
          exact ⟨unchanged, later⟩
    · rw [entries_cons_long (decide_eq_false fits)]
      exact iff_of_false (fun none => nomatch none) fun both => fits both.1.2.1

/-- An empty line at the end is passed over. -/
theorem entries_concat_empty (lines : List String) : entries (lines ++ [""]) = entries lines := by
  have empty : short "" = true ∧ withoutReturn "" = "" := ⟨rfl, rfl⟩
  induction lines with
  | nil => rw [List.nil_append, entries_cons_short empty.1, if_pos empty.2]
  | cons line lines ih =>
    rw [List.cons_append]
    cases fits : short line with
    | false => rw [entries_cons_long fits, entries_cons_long fits]
    | true => rw [entries_cons_short fits, entries_cons_short fits, ih]

theorem ofText_join (some : lines ≠ []) (free : ∀ line ∈ lines, '\n' ∉ line.toList) :
    ofText ("\n".intercalate lines) = ⟨entries lines⟩ := by
  have split : ("\n".intercalate lines).toList.splitOn '\n' = lines.map String.toList := by
    rw [toList_join, List.splitOn_intercalate]
    · simpa using free
    · simpa using some
  rw [ofText, split, List.takeWhile_map, List.map_map]
  rfl

/-! ## Saving -/

/-- The entries that are saved: the last ones. -/
def recent (h : History) : List String := h.lines.drop (h.lines.length - limit)

/-- A history that is not too long is saved as a whole. -/
theorem recent_eq_lines (few : h.lines.length ≤ limit) : h.recent = h.lines := by
  rw [recent, Nat.sub_eq_zero_of_le few, List.drop_zero]

/-- What is read from a saved history. -/
theorem ofText_save (free : ∀ line ∈ h.lines, '\n' ∉ line.toList) : ofText h.save = ⟨entries h.recent⟩ := by
  have recent_free : ∀ line ∈ h.recent, '\n' ∉ line.toList := fun line hl => free line (List.mem_of_mem_drop hl)
  have saved : h.save = "\n".intercalate h.recent ++ "\n" := rfl
  rw [saved]
  cases entries_ : h.recent with
  | nil => rfl
  | cons line lines =>
    rw [entries_] at recent_free
    have closed : "\n".intercalate (line :: lines) ++ "\n" = "\n".intercalate (line :: lines ++ [""]) := by
      rw [String.intercalate_append_of_ne_nil (List.cons_ne_nil _ _) (List.cons_ne_nil _ _),
        String.intercalate_singleton, String.append_empty]
    rw [closed, ofText_join (by simp), entries_concat_empty]
    exact List.forall_mem_append.2 ⟨recent_free, by simp⟩

/-! ## Entries -/

/-- A history as reading and writing leave it: no entry is empty or holds a line end. -/
def Tidy (h : History) : Prop := ∀ line ∈ h.lines, line ≠ "" ∧ '\n' ∉ line.toList

theorem tidy_ofText (text : String) : (ofText text).Tidy := by
  intro line hl
  obtain ⟨among, some⟩ := List.mem_filter.1 hl
  obtain ⟨chars, read, rfl⟩ := List.mem_map.1 among
  refine ⟨of_decide_eq_true some, fun inside => ?_⟩
  have part : chars ∈ text.toList.splitOn '\n' := (List.takeWhile_prefix _).subset read
  have free : '\n' ∉ chars := by
    rw [List.splitOn] at part
    exact notMem_of_mem_splitOnPPrepend List.not_mem_nil part
  rw [String.toList_ofList, dropReturn] at inside
  split at inside
  · exact free ((List.dropLast_prefix _).subset inside)
  · exact free inside

/-- An entry as it is written: it does not end in white space, and holds no line end. -/
structure Written (line : String) : Prop where
  ends : ∃ c ∈ line.toList.getLast?, Text.isBlank c = false
  free : '\n' ∉ line.toList

theorem Written.ne_empty (h : Written line) : line ≠ "" := by
  rintro rfl
  obtain ⟨c, last, -⟩ := h.ends
  cases last

theorem ends_trimString (some : Text.trimString line ≠ "") :
    ∃ c ∈ (Text.trimString line).toList.getLast?, Text.isBlank c = false := by
  have chars : (Text.trimString line).toList = Text.dropEnd Text.isBlank (line.toList.dropWhile Text.isBlank) :=
    String.toList_ofList
  rw [chars]
  cases last : (Text.dropEnd Text.isBlank (line.toList.dropWhile Text.isBlank)).getLast? with
  | none =>
    rw [List.getLast?_eq_none_iff, ← chars, String.toList_eq_nil_iff] at last
    exact absurd last some
  | some c => exact ⟨c, rfl, Text.not_of_mem_getLast?_dropEnd last⟩

/-- Writing a line adds it, trimmed, or nothing. -/
theorem write_cases (h : History) (line : String) :
    h.write line = h ∨ Written (Text.trimString line) ∧ h.lines.getLast? ≠ some (Text.trimString line) ∧
      h.write line = ⟨h.lines ++ [Text.trimString line]⟩ := by
  rw [write]
  split
  · exact .inl rfl
  · next kept =>
    split
    · exact .inl rfl
    · next new =>
      have kept : Text.trimString line ≠ "" ∧ '\n' ∉ (Text.trimString line).toList := by simpa using kept
      exact .inr ⟨⟨ends_trimString kept.1, kept.2⟩, new, rfl⟩

/-- What writing some lines adds to a history. -/
structure Adds (old typed added : List String) : Prop where
  order : added.Sublist (typed.map Text.trimString)
  written : ∀ line ∈ added, Written line
  apart : (old.getLast?.toList ++ added).IsChain (· ≠ ·)

theorem exists_adds (h : History) (typed : List String) :
    ∃ added, (typed.foldl write h).lines = h.lines ++ added ∧ Adds h.lines typed added := by
  induction typed generalizing h with
  | nil =>
    refine ⟨[], (List.append_nil _).symm, .slnil, fun line hl => absurd hl List.not_mem_nil, ?_⟩
    cases h.lines.getLast? with
    | none => exact .nil
    | some line => exact .singleton line
  | cons line typed ih =>
    rw [List.foldl_cons]
    rcases h.write_cases line with same | ⟨written, new, after⟩
    · obtain ⟨added, lines, adds⟩ := ih h
      rw [same]
      exact ⟨added, lines, adds.order.cons _, adds.written, adds.apart⟩
    · obtain ⟨added, lines, adds⟩ := ih ⟨h.lines ++ [Text.trimString line]⟩
      have apart := adds.apart
      rw [List.getLast?_concat] at apart
      rw [after]
      refine ⟨Text.trimString line :: added, lines.trans (by simp), adds.order.cons_cons _,
        List.forall_mem_cons.2 ⟨written, adds.written⟩, ?_⟩
      cases before : h.lines.getLast? with
      | none => exact apart
      | some last =>
        rw [before] at new
        exact .cons_cons (fun same => new (congrArg some same)) apart

theorem Tidy.foldl_write (h : History) (tidy : h.Tidy) (typed : List String) : (typed.foldl write h).Tidy := by
  obtain ⟨added, lines, adds⟩ := exists_adds h typed
  intro line hl
  rw [lines] at hl
  rcases List.mem_append.1 hl with old | new
  · exact tidy line old
  · have written := adds.written line new
    exact ⟨written.ne_empty, written.free⟩

/-- A history survives being saved and read again: the last entries are read back, in order and unchanged,
exactly if each of them fits on a line that can be read and does not end in a carriage return; otherwise
what is read ends at the first that does not fit. What is written are trimmed lines, in order, each without
a line end, not blank, and different from the entry before it. -/
theorem history_kept (text : String) (typed : List String) :
    let old := ofText text
    let h := typed.foldl write old
    (ofText h.save = ⟨h.recent⟩ ↔
      ∀ line ∈ h.recent, Text.bytes line.toList < lineLimit ∧ line.toList.getLast? ≠ some '\r') ∧
    ofText h.save = ⟨entries h.recent⟩ ∧
    ∃ added, h.lines = old.lines ++ added ∧ Adds old.lines typed added := by
  intro old h
  have tidy : h.Tidy := Tidy.foldl_write old (tidy_ofText text) typed
  have read : ofText h.save = ⟨entries h.recent⟩ := ofText_save fun line hl => (tidy line hl).2
  refine ⟨?_, read, exists_adds old typed⟩
  rw [read, History.mk.injEq, entries_eq_self_iff]
  refine forall₂_congr fun line hl => and_iff_right ?_
  exact (tidy line (List.mem_of_mem_drop hl)).1

/-! ## A long entry -/

theorem write_of_trimmed (trimmed : Text.trimString line = line) (nonempty : line ≠ "") (free : '\n' ∉ line.toList)
    (new : h.lines.getLast? ≠ some line) : h.write line = ⟨h.lines ++ [line]⟩ := by
  rw [write, trimmed, if_neg (by simp [nonempty, free]), if_neg new]

theorem trimString_replicate (n : Nat) : Text.trimString (String.ofList (List.replicate n 'a')) =
    String.ofList (List.replicate n 'a') := by
  have plain (c : Char) (hc : c ∈ List.replicate n 'a') : Text.isBlank c = false := by
    rw [List.eq_of_mem_replicate hc]
    decide
  rw [Text.trimString, String.toList_ofList,
    Text.trim_eq_dropEnd fun c hc => plain c (List.mem_of_mem_head? hc),
    Text.dropEnd_eq_self fun c hc => plain c (List.mem_of_mem_getLast? hc)]

theorem newline_notMem_replicate (n : Nat) : '\n' ∉ (String.ofList (List.replicate n 'a')).toList := by
  rw [String.toList_ofList]
  exact fun inside => absurd (List.eq_of_mem_replicate inside) (by decide)

theorem bytes_replicate (n : Nat) : Text.bytes (String.ofList (List.replicate n 'a')).toList = n := by
  rw [String.toList_ofList]
  induction n with
  | zero => rfl
  | succ n ih =>
    rw [List.replicate_succ, Text.bytes_cons, ih, Nat.add_comm]
    rfl

/-- An entry that does not fit is lost, and so is the one behind it. -/
theorem lost_of_long {long : String} (trimmed : Text.trimString long = long) (free : '\n' ∉ long.toList)
    (size : lineLimit ≤ Text.bytes long.toList) :
    (["b", long, "c"].foldl write (ofText "")).lines = ["b", long, "c"] ∧
      (["b", long, "c"].foldl write (ofText "")).recent = ["b", long, "c"] ∧
      (ofText (["b", long, "c"].foldl write (ofText "")).save).lines = ["b"] := by
  have other (line : String) (fits : Text.bytes line.toList < lineLimit) : long ≠ line := by
    rintro rfl
    exact Nat.not_lt.2 size fits
  have first : (ofText "").write "b" = ⟨["b"]⟩ := by decide
  have second : write ⟨["b"]⟩ long = ⟨["b", long]⟩ :=
    write_of_trimmed trimmed (other "" (by decide)) free fun same => other "b" (by decide) (Option.some.inj same).symm
  have third : write ⟨["b", long]⟩ "c" = ⟨["b", long, "c"]⟩ :=
    write_of_trimmed (by decide) (by decide) (by decide) fun same => other "c" (by decide) (Option.some.inj same)
  have all : ["b", long, "c"].foldl write (ofText "") = ⟨["b", long, "c"]⟩ := by
    rw [List.foldl_cons, first, List.foldl_cons, second, List.foldl_cons, third]
    rfl
  have tidy := Tidy.foldl_write _ (tidy_ofText "") ["b", long, "c"]
  rw [all] at tidy ⊢
  have whole : recent ⟨["b", long, "c"]⟩ = ["b", long, "c"] := recent_eq_lines (show 3 ≤ 1000 by decide)
  refine ⟨rfl, whole, ?_⟩
  rw [ofText_save fun line hl => (tidy line hl).2, whole, entries_cons_short (by decide),
    entries_cons_long (decide_eq_false (Nat.not_lt.2 size))]
  rfl

/-- An entry of as many bytes as a line may have with its line end, and a short one behind it. -/
theorem long_entry_lost :
    let long := String.ofList (List.replicate 65536 'a')
    let h := ["b", long, "c"].foldl write (ofText "")
    h.lines = ["b", long, "c"] ∧ h.recent = ["b", long, "c"] ∧ (ofText h.save).lines = ["b"] := by
  have size : lineLimit ≤ Text.bytes (String.ofList (List.replicate 65536 'a')).toList := by
    rw [bytes_replicate 65536, lineLimit]
  exact lost_of_long (trimString_replicate 65536) (newline_notMem_replicate 65536) size

end Gapscript.History
