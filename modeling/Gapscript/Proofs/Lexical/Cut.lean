import Gapscript.Proofs.Lexical.Edge
import Gapscript.Proofs.Reading.Legible

/-!
# A text cut out of its source

A guard is read in its source, and later its text is read alone. `Behind` is what stands behind the text in the
source: white space that is cut off, and a rest that has an opening brace behind its white space. A scan
of the source that stops in the text, or in the white space behind it, stops at the same place, or at the end,
when the text stands alone, and finds the same (`Behind.quoted_cut`, `Behind.sourceLength_cut`,
`Behind.unescape_cut`), unless a backslash at the end of the text is in the way.
-/

namespace Gapscript

open Lexical

/-- What stands behind a text in its source: white space that is cut off, and a rest with an opening brace
behind its own white space. -/
structure Behind where
  space : Text
  rest : Text
  blank : ∀ x ∈ space, Text.isLineSpace x = true
  brace : (rest.drop (gap rest)).head? = some '\x7b'

/-- The terminators with which a text is read in its source and alone. Only the first one may stop at an opening
brace. -/
structure Terminator.Fits (term term' : Terminator) : Prop where
  charwise : term.Charwise
  charwise' : term'.Charwise
  agree : ∀ x, x ≠ '\x7b' → term [x] = term' [x]
  brace : term' ['\x7b'] = false

namespace Lexical

variable {X u v t mark : Text} {c x : Char} {n : Nat}

/-! ## White space and comments -/

/-- White space and comments in front of a cut, unless two slashes are cut apart. -/
theorem gapFrom_cut (slash : v.getLast? = some '/' → X.head? ≠ some '/') (comment : Bool) :
    gapFrom comment v = min (gapFrom comment (v ++ X)) v.length := by
  induction v generalizing comment with
  | nil => exact (Nat.min_zero _).symm
  | cons x v ih =>
    have later : v.getLast? = some '/' → X.head? ≠ some '/' := fun last =>
      slash (by rw [List.getLast?_cons, last]; rfl)
    rw [List.cons_append, List.length_cons]
    cases comment with
    | true => rw [gapFrom, gapFrom, ih later, Nat.add_min_add_right]
    | false =>
      by_cases layout : isLayout x = true
      · rw [gapFrom, gapFrom, if_pos layout, if_pos layout, ih later, Nat.add_min_add_right]
      have heads : (x == '/' && (v ++ X).head? == some '/') = (x == '/' && v.head? == some '/') := by
        cases v with
        | nil =>
          rw [single_slash, List.nil_append, Bool.and_eq_false_imp, beq_iff_eq, beq_eq_false_iff_ne]
          rintro rfl
          exact slash rfl
        | cons => rfl
      rw [gapFrom_solid layout, gapFrom_solid layout, heads]
      split
      · rw [ih later, Nat.add_min_add_right]
      · exact (Nat.zero_min _).symm

/-! ## Quotes -/

/-- A quoted piece ends with its mark. -/
theorem closeLength?_ends (quotes : IsMark mark) (found : closeLength? mark t = some n) :
    ∃ s, t.take n = s ++ mark := by
  induction t using closeQuote.induct mark generalizing n with
  | case1 => cases found
  | case2 x t ih =>
    rw [closeLength?_escape, Option.map_eq_some_iff] at found
    obtain ⟨m, found, rfl⟩ := found
    obtain ⟨s, same⟩ := ih found
    exact ⟨'\\' :: x :: s, by rw [List.take_succ_cons, List.take_succ_cons, same]; rfl⟩
  | case3 c t single first =>
    have plain : c ≠ '\\' := by
      rintro rfl
      exact not_prefix_backslash quotes t first
    rw [closeLength?_cons plain, if_pos first] at found
    cases found
    rw [List.isPrefixOf_iff_prefix] at first
    exact ⟨[], (List.prefix_iff_eq_take.mp first).symm⟩
  | case4 c t single other ih =>
    by_cases plain : c = '\\'
    · -- A backslash without a next character is the end of the text.
      subst plain
      cases t with
      | nil =>
        rw [closeLength?_backslash quotes] at found
        cases found
      | cons x t => exact (single x t rfl rfl).elim
    · rw [closeLength?_cons plain, if_neg other, Option.map_eq_some_iff] at found
      obtain ⟨m, found, rfl⟩ := found
      obtain ⟨s, same⟩ := ih found
      exact ⟨c :: s, by rw [List.take_succ_cons, same]; rfl⟩

theorem quotedLength?_ends (found : quotedLength? t = some n) :
    ∃ s q, t.take n = s ++ [q] ∧ isQuote q = true := by
  obtain ⟨mark, run⟩ : ∃ mark, t.takeWhile isQuote = mark := ⟨_, rfl⟩
  have quotes : ∀ c ∈ mark, isQuote c = true := by
    rw [← run]
    exact List.all_eq_true.mp List.all_takeWhile
  obtain ⟨v, rfl⟩ : ∃ v, t = mark ++ v := ⟨t.dropWhile isQuote, by rw [← run, List.takeWhile_append_dropWhile]⟩
  rcases List.eq_nil_or_concat mark with rfl | ⟨init, q, marks⟩
  · rw [quotedLength?, quoted?, run] at found
    cases found
  have last : isQuote q = true := quotes q (by rw [marks]; simp)
  obtain ⟨c, qs, same⟩ := List.exists_cons_of_ne_nil (show mark ≠ [] by rw [marks]; simp)
  rw [same] at run found
  rw [quotedLength?_run run, ← same] at found
  split at found
  · cases found
    exact ⟨init, q, by rw [List.take_left, marks, List.concat_eq_append], last⟩
  · obtain ⟨m, closed, rfl⟩ := Option.map_eq_some_iff.mp found
    obtain ⟨s, ends⟩ := closeLength?_ends ⟨by rw [same]; exact List.cons_ne_nil c qs, quotes⟩ closed
    refine ⟨mark ++ (s ++ init), q, ?_, last⟩
    rw [Nat.add_comm, List.take_length_add_append, ends, marks, List.concat_eq_append]
    simp only [List.append_assoc]

theorem closeQuote_append (quotes : IsMark mark) (ends : endsQuote X = true) {s : Text}
    (found : closeQuote mark t = some (s, n)) : closeQuote mark (t ++ X) = some (s, n) := by
  induction t using closeQuote.induct mark generalizing s n with
  | case1 => cases found
  | case2 x t ih =>
    rw [closeQuote, Option.map_eq_some_iff] at found
    obtain ⟨⟨s, m⟩, found, same⟩ := found
    rw [List.cons_append, List.cons_append, closeQuote, ih found, Option.map_some, same]
  | case3 c t single first =>
    have first' : mark.isPrefixOf (c :: t ++ X) = true := by
      rw [List.isPrefixOf_iff_prefix] at first ⊢
      exact first.trans (List.prefix_append _ X)
    have plain : c ≠ '\\' := by
      rintro rfl
      exact not_prefix_backslash quotes t first
    rw [closeQuote.eq_3 _ _ _ single, if_pos first] at found
    rw [List.cons_append, closeQuote.eq_3 _ _ _ fun _ _ same _ => plain same, ← List.cons_append, if_pos first']
    exact found
  | case4 c t single other ih =>
    rw [closeQuote.eq_3 _ _ _ single, if_neg other, Option.map_eq_some_iff] at found
    obtain ⟨⟨s, m⟩, found, same⟩ := found
    have other' : ¬mark.isPrefixOf (c :: t ++ X) = true := by
      rw [List.isPrefixOf_iff_prefix] at other ⊢
      rw [prefix_border_iff quotes ends]
      exact other
    have single' : ∀ x cs, c = '\\' → t ++ X = x :: cs → False := by
      intro x cs backslash _
      cases t with
      | nil => cases found
      | cons y t => exact single y t backslash rfl
    rw [List.cons_append, closeQuote.eq_3 _ _ _ single', ← List.cons_append, if_neg other', ih found,
      Option.map_some, same]

/-- A string that is closed in a text is the same in front of what ends it. -/
theorem quoted?_append (ends : endsQuote X = true) {s : Text} (found : quoted? t = some (s, n)) :
    quoted? (t ++ X) = some (s, n) := by
  unfold quoted? at found ⊢
  rw [takeWhile_border ends]
  split at found
  · cases found
  · next q qs run =>
    have quotes : ∀ c ∈ q :: qs, isQuote c = true := by
      rw [← run]
      exact List.all_eq_true.mp List.all_takeWhile
    have long : (q :: qs).length ≤ t.length := by
      rw [← run]
      exact (List.takeWhile_prefix _).length_le
    dsimp only at found ⊢
    rw [List.drop_append_of_le_length long, endsQuote_append ends]
    split at found
    · next pair => rw [if_pos pair, found]
    · next single =>
      rw [Option.map_eq_some_iff] at found
      obtain ⟨⟨s, m⟩, closed, same⟩ := found
      rw [if_neg single, closeQuote_append ⟨List.cons_ne_nil q qs, quotes⟩ ends closed, Option.map_some, same]

/-! ## Blocks -/

/-- A block that ends in a text ends at the same place when the text stands alone. -/
theorem blockLength_cut (edge : Edged X) {depth h : Nat} (found : blockLength depth h (v ++ X) = some n)
    (inside : n < v.length) : blockLength depth h v = some n := by
  induction v generalizing depth h n with
  | nil => cases inside
  | cons c v ih =>
    have behind {depth h : Nat} (found : (blockLength depth h (v ++ X)).map (· + 1) = some n) :
        (blockLength depth h v).map (· + 1) = some n := by
      obtain ⟨m, earlier, rfl⟩ := Option.map_eq_some_iff.mp found
      rw [ih earlier (Nat.lt_of_succ_lt_succ inside)]
      rfl
    cases h with
    | succ h => exact behind found
    | zero =>
      rw [List.cons_append] at found
      cases hidden : hiddenOrComment? (c :: (v ++ X)) with
      | some m =>
        rw [blockLength_hidden hidden] at found
        obtain ⟨k, passed, rfl⟩ := Option.map_eq_some_iff.mp found
        have short := hidden_le_of_blockLength passed
        rw [List.length_cons] at inside
        have alone := hiddenOrComment?_cut_some edge.nonempty edge.ends hidden (by omega)
        rw [blockLength_hidden alone]
        exact behind found
      | none =>
        rw [blockLength_single hidden] at found
        rw [blockLength_single (hiddenOrComment?_cut_none edge.nonempty edge.ends hidden)]
        split at found
        · next opens =>
          rw [if_pos opens]
          exact behind found
        · next other =>
          rw [if_neg other]
          split at found
          · next closes =>
            rw [if_pos closes]
            split at found
            · next last =>
              rw [if_pos last]
              exact found
            · next inner =>
              rw [if_neg inner]
              exact behind found
          · next plain =>
            rw [if_neg plain]
            exact behind found

/-! ## Escapes -/

theorem unescapeUntil_escape (term : Terminator) (x : Char) (t : Text) : unescapeUntil term ('\\' :: x :: t) =
    if term ('\\' :: x :: t) then ([], 0)
    else (x :: (unescapeUntil term t).1, (unescapeUntil term t).2 + 2) := rfl

theorem unescapeUntil_plain (plain : c ≠ '\\') (term : Terminator) (t : Text) : unescapeUntil term (c :: t) =
    if term (c :: t) then ([], 0) else (c :: (unescapeUntil term t).1, (unescapeUntil term t).2 + 1) :=
  unescapeUntil.eq_3 _ _ _ fun _ _ same _ => plain same

theorem unescapeUntil_zero {term : Terminator} {s : Text} (read : unescapeUntil term t = (s, 0)) : s = [] := by
  unfold unescapeUntil at read
  split at read
  · cases read
    rfl
  · split at read
    · cases read
      rfl
    · cases read
  · split at read
    · cases read
      rfl
    · cases read

/-- White space without escapes in front of a text. -/
theorem unescapeUntil_space {term : Terminator} {s : Text} (space : ∀ x ∈ u, Text.isLineSpace x = true)
    (read : unescapeUntil term (u ++ t) = (s, n)) (short : n ≤ u.length) :
    ∀ x ∈ s, Text.isLineSpace x = true := by
  induction u generalizing s n with
  | nil =>
    cases Nat.le_zero.mp short
    rw [unescapeUntil_zero read]
    exact List.forall_mem_nil _
  | cons x u ih =>
    obtain ⟨here, later⟩ := List.forall_mem_cons.mp space
    have plain : x ≠ '\\' := by
      rintro rfl
      cases here
    rw [List.cons_append, unescapeUntil_plain plain] at read
    split at read
    · cases read
      exact List.forall_mem_nil _
    · cases read
      exact List.forall_mem_cons.mpr ⟨here, ih later rfl (Nat.le_of_succ_le_succ short)⟩

theorem le_sourceLength (term : Terminator) (d h : Nat) (t : Text) : min h t.length ≤ sourceLength term d h t := by
  induction h generalizing t with
  | zero => exact (Nat.zero_min _).symm ▸ Nat.zero_le _
  | succ h ih =>
    cases t with
    | nil => exact Nat.min_le_right _ _
    | cons c t =>
      rw [List.length_cons, Nat.add_min_add_right, sourceLength]
      exact Nat.succ_le_succ (ih t)

end Lexical

/-! ## Terminators -/

namespace Terminator.Fits

variable {term term' : Terminator} {X v : Text} {c : Char}

theorem stops (fits : term.Fits term') (edge : Edged X) (other : c ≠ '\x7b') :
    statement.or term' (c :: v) = statement.or term (c :: (v ++ X)) := by
  have apart : X.head? ≠ some '=' := fun same => edge.head? (P := (· ≠ '=')) (by decide) '=' same rfl
  have apart' : ([] : Text).head? ≠ some '=' := nofun
  have same := stops_append fits.charwise apart apart' c v
  rw [List.append_nil] at same
  rw [← same, Terminator.or, Terminator.or, fits.charwise' c v [], fits.charwise c v [], fits.agree c other]

theorem goes (fits : term.Fits term') : statement.or term' ('\x7b' :: v) = false := by
  rw [Terminator.or, fits.charwise' _ v [], fits.brace]
  rfl

theorem or (fits : term.Fits term') {ts : List String} (single : ∀ s ∈ ts, s.toList.length = 1)
    (apart : tokens ts ['\x7b'] = false) : (term.or (tokens ts)).Fits (term'.or (tokens ts)) where
  charwise c t u := by rw [Terminator.or, Terminator.or, fits.charwise c t u, charwise_tokens single c t u]
  charwise' c t u := by rw [Terminator.or, Terminator.or, fits.charwise' c t u, charwise_tokens single c t u]
  agree x other := by rw [Terminator.or, Terminator.or, fits.agree x other]
  brace := by rw [Terminator.or, fits.brace, apart]; rfl

end Terminator.Fits

theorem Terminator.fits_tokens {ts : List String} (single : ∀ s ∈ ts, s.toList.length = 1)
    (apart : tokens ts ['\x7b'] = false) : (tokens ts).Fits (tokens ts) where
  charwise := charwise_tokens single
  charwise' := charwise_tokens single
  agree _ _ := rfl
  brace := apart

/-! ## Scans that stop in front of the rest -/

namespace Behind

variable {B : Behind} {term term' : Terminator} {u v w : Text} {c : Char} {n : Nat}

/-- All that stands behind the text. -/
def text (B : Behind) : Text := B.space ++ B.rest

theorem edged_rest (B : Behind) : Edged B.rest := by
  have brace := B.brace
  cases rest : B.rest with
  | nil =>
    rw [rest] at brace
    cases brace
  | cons x t =>
    by_cases layout : isLayout x = true
    · exact edged_of_layout layout t
    · rw [rest, gap, gapFrom_solid layout] at brace
      refine ⟨x, ?_, t, rfl⟩
      split at brace
      · next slashes =>
        rw [Bool.and_eq_true, beq_iff_eq] at slashes
        rw [slashes.1]
        decide
      · rw [List.drop_zero, List.head?_cons, Option.some.injEq] at brace
        rw [brace]
        decide

theorem edged_behind (part : w <:+ B.space) : Edged (w ++ B.rest) := by
  cases w with
  | nil => exact B.edged_rest
  | cons x w =>
    have blank := B.blank x (part.subset List.mem_cons_self)
    exact edged_of_layout (isLayout_of_isLineSpace blank) (w ++ B.rest)

theorem edged (B : Behind) : Edged B.text := edged_behind List.suffix_rfl

theorem rest_pos (B : Behind) : 0 < B.rest.length := List.length_pos_iff.mpr B.edged_rest.nonempty

theorem length_text (B : Behind) : B.text.length = B.space.length + B.rest.length := List.length_append

/-- A quoted piece does not end in the white space. -/
theorem quoted_inside (found : quotedLength? (u ++ B.text) = some n) (ahead : n ≤ u.length + B.space.length) :
    n ≤ u.length := by
  refine Nat.le_of_not_lt fun beyond => ?_
  obtain ⟨s, q, same, quote⟩ := quotedLength?_ends found
  have nonempty : B.space.take (n - u.length) ≠ [] := by
    rw [← List.length_pos_iff, List.length_take]
    omega
  rw [List.take_append, List.take_of_length_le beyond.le, text, List.take_append_of_le_length (by omega)] at same
  obtain ⟨init, x, last⟩ := (List.eq_nil_or_concat (B.space.take (n - u.length))).resolve_left nonempty
  have inside : x ∈ B.space := List.mem_of_mem_take (show x ∈ B.space.take (n - u.length) by rw [last]; simp)
  have blank := B.blank x inside
  have equal : x = q := by
    rw [last] at same
    simpa using congrArg List.getLast? same
  rw [equal] at blank
  rcases isQuote_iff.mp quote with rfl | rfl
  · cases blank
  · cases blank

theorem quotedLength_cut (found : quotedLength? (u ++ B.text) = some n)
    (ahead : n ≤ u.length + B.space.length) : n ≤ u.length ∧ quotedLength? u = some n := by
  have inside := quoted_inside found ahead
  have alone := (kept_quotedLength (borders_end B.edged.nonempty B.edged.ends) u).some found inside
  rw [List.append_nil] at alone
  exact ⟨inside, alone⟩

theorem quoted_cut {s : Text} (found : quoted? (u ++ B.text) = some (s, n))
    (ahead : n ≤ u.length + B.space.length) : n ≤ u.length ∧ quoted? u = some (s, n) := by
  obtain ⟨inside, alone⟩ := quotedLength_cut (by rw [quotedLength?, found]; rfl) ahead
  obtain ⟨⟨s', m⟩, closed, rfl⟩ := Option.map_eq_some_iff.mp alone
  have whole := quoted?_append B.edged.ends closed
  rw [found] at whole
  cases whole
  exact ⟨inside, closed⟩

theorem hidden_cut (escape : (c :: u).getLast? ≠ some '\\') (found : hidden? (c :: (u ++ B.text)) = some n)
    (ahead : n ≤ u.length + 1 + B.space.length) : hidden? (c :: u) = some n := by
  by_cases plain : c = '\\'
  · subst plain
    cases u with
    | nil => exact absurd rfl escape
    | cons x u => exact found
  · rw [hidden?_cons plain] at found ⊢
    exact (quotedLength_cut (u := c :: u) found ahead).2

theorem hidden_none (found : hidden? (c :: (u ++ B.text)) = none) : hidden? (c :: u) = none := by
  have kept := (kept_hidden (borders_end B.edged.nonempty B.edged.ends) c u).none found
  rwa [List.append_nil] at kept

theorem sourceMove_cut {d : Nat} (fits : term.Fits term') (free : c = '\x7b' →
      (d == 0 && Terminator.statement.or term (c :: (u ++ B.text))) = false)
    (hidden : sourceMove? term d c (u ++ B.text) ≠ none → hidden? (c :: u) = hidden? (c :: (u ++ B.text))) :
    sourceMove? term' d c u = sourceMove? term d c (u ++ B.text) := by
  have stops : (d == 0 && Terminator.statement.or term' (c :: u)) =
      (d == 0 && Terminator.statement.or term (c :: (u ++ B.text))) := by
    by_cases brace : c = '\x7b'
    · rw [free brace, brace, fits.goes, Bool.and_false]
    · rw [fits.stops B.edged brace]
  unfold sourceMove? at hidden ⊢
  rw [stops]
  split
  · rfl
  · next goes =>
    rw [if_neg goes] at hidden
    cases found : hidden? (c :: (u ++ B.text)) with
    | none => rw [hidden_none found]
    | some n =>
      rw [found] at hidden
      rw [hidden nofun]

/-- The source of an expression that ends in front of the rest. -/
theorem sourceLength_cut (fits : term.Fits term') (escape : v.getLast? ≠ some '\\') {d h : Nat}
    (ahead : sourceLength term d h (v ++ B.text) ≤ v.length + B.space.length)
    (free : ∀ t, v.drop (sourceLength term d h (v ++ B.text)) ≠ '\x7b' :: t) :
    sourceLength term' d h v = min (sourceLength term d h (v ++ B.text)) v.length := by
  induction v generalizing d h with
  | nil => exact (Nat.min_zero _).symm
  | cons c v ih =>
    have later : v.getLast? ≠ some '\\' := fun last => escape (by rw [List.getLast?_cons, last]; rfl)
    rw [List.length_cons] at ahead ⊢
    cases h with
    | succ h =>
      have step (term : Terminator) (t : Text) : sourceLength term d (h + 1) (c :: t) =
          sourceLength term d h t + 1 := rfl
      rw [List.cons_append, step] at ahead free ⊢
      rw [step, ih later (by omega) free, Nat.add_min_add_right]
    | zero =>
      rw [List.cons_append] at ahead free ⊢
      cases move : sourceMove? term d c (v ++ B.text) with
      | none =>
        rw [sourceLength_stop move] at free ⊢
        have same := sourceMove_cut (d := d) fits (fun brace => absurd (by rw [brace]; rfl) (free v))
          fun goes => absurd move goes
        rw [sourceLength_stop (same.trans move), Nat.zero_min]
      | some next =>
        obtain ⟨d', h⟩ := next
        rw [sourceLength_move move] at ahead free ⊢
        have goes (_ : c = '\x7b') : (d == 0 && Terminator.statement.or term (c :: (v ++ B.text))) = false := by
          refine Bool.eq_false_iff.mpr fun stops => ?_
          rw [sourceMove?, if_pos stops] at move
          cases move
        have same := sourceMove_cut fits goes fun _ => by
          cases found : hidden? (c :: (v ++ B.text)) with
          | none => exact hidden_none found
          | some n =>
            -- The scan passes over the piece, so it would not stop in front of the rest.
            have passed : h = n - 1 := by
              unfold sourceMove? at move
              split at move
              · cases move
              · rw [found] at move
                cases move
                rfl
            have long := le_sourceLength term d' h (v ++ B.text)
            have behind := B.rest_pos
            rw [List.length_append, length_text] at long
            exact hidden_cut escape found (by omega)
        rw [sourceLength_move (same.trans move), ih later (by omega) free, Nat.add_min_add_right]

/-- A text up to a stop in front of the rest, its escapes resolved. -/
theorem unescape_cut (fits : term.Fits term') (escape : v.getLast? ≠ some '\\') {s : Text}
    (read : unescapeUntil (Terminator.statement.or term) (v ++ B.text) = (s, n))
    (ahead : n ≤ v.length + B.space.length) (free : ∀ t, v.drop n ≠ '\x7b' :: t) :
    ∃ s', unescapeUntil (Terminator.statement.or term') v = (s', min n v.length) ∧
      Text.trimLine s = Text.trimLine s' := by
  suffices ∃ s', unescapeUntil (Terminator.statement.or term') v = (s', min n v.length) ∧
      ∃ w, s = s' ++ w ∧ ∀ x ∈ w, Text.isLineSpace x = true by
    obtain ⟨s', alone, w, rfl, blank⟩ := this
    exact ⟨s', alone, Text.dropEnd_append blank⟩
  fun_induction unescapeUntil (Terminator.statement.or term') v generalizing s n with
  | case1 =>
    refine ⟨[], by rw [List.length_nil, Nat.min_zero], s, rfl, ?_⟩
    exact unescapeUntil_space B.blank read (by rwa [List.length_nil, Nat.zero_add] at ahead)
  | case2 x v stops =>
    rw [fits.stops B.edged (by decide), List.cons_append] at stops
    rw [List.cons_append, List.cons_append, unescapeUntil_escape, if_pos stops] at read
    cases read
    exact ⟨[], by rw [Nat.zero_min], [], rfl, List.forall_mem_nil _⟩
  | case3 x v goes s' n' alone ih =>
    rw [fits.stops B.edged (by decide), List.cons_append] at goes
    rw [List.cons_append, List.cons_append, unescapeUntil_escape, if_neg goes] at read
    cases read
    have later : v.getLast? ≠ some '\\' := fun last =>
      escape (by rw [List.getLast?_cons, List.getLast?_cons, last]; rfl)
    rw [List.length_cons, List.length_cons] at ahead ⊢
    obtain ⟨s, same, w, whole, blank⟩ := ih later rfl (by omega) free
    rw [alone] at same
    cases same
    exact ⟨x :: s', by rw [Nat.add_min_add_right], w, congrArg (x :: ·) whole, blank⟩
  | case4 c v single stops =>
    have plain : c ≠ '\\' := by
      rintro rfl
      cases v with
      | nil => exact escape rfl
      | cons x v => exact single x v rfl rfl
    have other : c ≠ '\x7b' := by
      rintro rfl
      rw [fits.goes] at stops
      cases stops
    rw [fits.stops B.edged other] at stops
    rw [List.cons_append, unescapeUntil_plain plain, if_pos stops] at read
    cases read
    exact ⟨[], by rw [Nat.zero_min], [], rfl, List.forall_mem_nil _⟩
  | case5 c v single goes s' n' alone ih =>
    have plain : c ≠ '\\' := by
      rintro rfl
      cases v with
      | nil => exact escape rfl
      | cons x v => exact single x v rfl rfl
    have goes : ¬Terminator.statement.or term (c :: (v ++ B.text)) = true := by
      by_cases brace : c = '\x7b'
      · intro stops
        rw [List.cons_append, unescapeUntil_plain plain, if_pos stops] at read
        cases read
        exact free v (by rw [brace]; rfl)
      · rwa [← fits.stops B.edged brace]
    rw [List.cons_append, unescapeUntil_plain plain, if_neg goes] at read
    cases read
    have later : v.getLast? ≠ some '\\' := fun last => escape (by rw [List.getLast?_cons, last]; rfl)
    rw [List.length_cons] at ahead ⊢
    obtain ⟨s, same, w, whole, blank⟩ := ih later rfl (by omega) free
    rw [alone] at same
    cases same
    exact ⟨c :: s', by rw [Nat.add_min_add_right], w, congrArg (c :: ·) whole, blank⟩

end Behind

end Gapscript
