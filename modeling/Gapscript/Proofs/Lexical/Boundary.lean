import Gapscript.Lexical.Bracket
import Mathlib.Data.List.Infix

/-!
# Pieces in front of a border

A scan that passes over quoted strings and escapes in one piece looks far ahead, for what closes a quote.
In front of a text that cannot be the inside of a string, a piece that ends before that text is the same
whatever the text is, and where the text is replaced by one that closes no more than it did, no new piece
begins (`kept_hidden`). The end of all text closes nothing (`borders_end`), so what a scan passes over is
still there when the text is cut off (`hiddenOrComment?_cut_some`).
-/

namespace Gapscript.Lexical

variable {u v R R' mark : Text} {f g : Text → Option Nat} {c : Char}

/-! ## Quotes -/

/-- A run of quotes. -/
def IsMark (mark : List Char) : Prop := mark ≠ [] ∧ ∀ q ∈ mark, isQuote q = true

theorem isQuote_iff : isQuote c = true ↔ c = '"' ∨ c = '\'' := by
  rw [isQuote, Bool.or_eq_true, beq_iff_eq, beq_iff_eq]

theorem isQuote_of_endsQuote {t : Text} (ends : endsQuote (c :: t) = true) : isQuote c = false := by
  refine Bool.eq_false_iff.mpr fun quote => ?_
  rcases isQuote_iff.mp quote with rfl | rfl
  · cases ends
  · cases ends

theorem ne_backslash_of_endsQuote {t : Text} (ends : endsQuote (c :: t) = true) : c ≠ '\\' := by
  rintro rfl
  cases ends

/-- A mark that begins in `u` ends there. -/
theorem prefix_border_iff (quotes : IsMark mark) (ends : endsQuote R = true) :
    mark <+: u ++ R ↔ mark <+: u := by
  refine ⟨fun first => ?_, fun first => first.trans (List.prefix_append u R)⟩
  rcases List.prefix_or_prefix_of_prefix first (List.prefix_append u R) with inside | ⟨v, rfl⟩
  · exact inside
  · rw [List.prefix_append_right_inj] at first
    cases v with
    | nil => exact (List.append_nil u).symm ▸ List.prefix_rfl
    | cons q v =>
      obtain ⟨t, rfl⟩ := first
      have quote : isQuote q = true := quotes.2 q (List.mem_append_right u List.mem_cons_self)
      rw [List.cons_append] at ends
      rw [isQuote_of_endsQuote ends] at quote
      cases quote

theorem not_prefix_border (quotes : IsMark mark) (ends : endsQuote R = true) : ¬mark.isPrefixOf R = true := by
  rw [List.isPrefixOf_iff_prefix]
  exact fun first => quotes.1 (List.prefix_nil.mp ((prefix_border_iff (u := []) quotes ends).mp first))

theorem takeWhile_border (ends : endsQuote R = true) (u : Text) :
    (u ++ R).takeWhile isQuote = u.takeWhile isQuote := by
  induction u with
  | nil =>
    cases R with
    | nil => rfl
    | cons c t =>
      rw [List.nil_append, List.takeWhile_cons_of_neg, List.takeWhile_nil]
      rw [isQuote_of_endsQuote ends]
      exact Bool.false_ne_true
  | cons c u ih => rw [List.cons_append, List.takeWhile_cons, List.takeWhile_cons, ih]

theorem endsQuote_append (ends : endsQuote R = true) (v : Text) : endsQuote (v ++ R) = endsQuote v := by
  cases v with
  | nil => exact ends
  | cons => rfl

/-- The number of characters up to and with the closing run. -/
def closeLength? (mark t : Text) : Option Nat := (closeQuote mark t).map (·.2)

theorem closeLength?_escape (x : Char) (t : Text) :
    closeLength? mark ('\\' :: x :: t) = (closeLength? mark t).map (· + 2) := by
  rw [closeLength?, closeQuote, closeLength?, Option.map_map, Option.map_map]
  rfl

theorem closeLength?_cons (plain : c ≠ '\\') (t : Text) : closeLength? mark (c :: t) =
    if mark.isPrefixOf (c :: t) then some mark.length else (closeLength? mark t).map (· + 1) := by
  rw [closeLength?, closeQuote.eq_3 _ _ _ fun _ _ same _ => plain same, closeLength?]
  split
  · rfl
  · rw [Option.map_map, Option.map_map]
    rfl

theorem not_prefix_backslash (quotes : IsMark mark) (t : Text) : ¬mark.isPrefixOf ('\\' :: t) = true := by
  rw [List.isPrefixOf_iff_prefix]
  intro first
  cases mark with
  | nil => exact quotes.1 rfl
  | cons q mark =>
    have quote := quotes.2 q List.mem_cons_self
    rw [(List.cons_prefix_cons.mp first).1] at quote
    cases quote

theorem closeLength?_backslash (quotes : IsMark mark) (t : Text) :
    closeLength? mark ('\\' :: t) = (closeLength? mark t.tail).map (· + 2) := by
  cases t with
  | nil =>
    rw [closeLength?, closeQuote, if_neg (not_prefix_backslash quotes [])]
    · rfl
    · intro x t same rest
      cases rest
  | cons x t => exact closeLength?_escape x t

theorem closeLength?_pos (quotes : IsMark mark) {t : Text} {n : Nat} (found : closeLength? mark t = some n) :
    0 < n := by
  cases t with
  | nil => cases found
  | cons c t =>
    by_cases plain : c = '\\'
    · rw [plain, closeLength?_backslash quotes, Option.map_eq_some_iff] at found
      obtain ⟨m, -, rfl⟩ := found
      exact Nat.succ_pos _
    · rw [closeLength?_cons plain] at found
      split at found
      · cases found
        exact List.length_pos_iff.mpr quotes.1
      · rw [Option.map_eq_some_iff] at found
        obtain ⟨m, -, rfl⟩ := found
        exact Nat.succ_pos _

/-- The length of the string that a run of quotes opens. -/
theorem quotedLength?_run {q : Char} {qs : List Char} (run : (q :: qs ++ v).takeWhile isQuote = q :: qs) :
    quotedLength? (q :: qs ++ v) =
      if isEmptyPair (q :: qs) && endsQuote v then some (q :: qs).length
      else (closeLength? (q :: qs) v).map (· + (q :: qs).length) := by
  rw [quotedLength?, quoted?, run]
  dsimp only
  rw [List.drop_left]
  split
  · rfl
  · rw [closeLength?, Option.map_map, Option.map_map]
    congr 1
    funext found
    exact Nat.add_comm _ _

/-- The same in front of a text that cannot be the inside of a string. -/
theorem quotedLength?_border {q : Char} {qs : List Char} (ends : endsQuote R = true)
    (run : (q :: qs ++ v).takeWhile isQuote = q :: qs) : quotedLength? (q :: qs ++ v ++ R) =
      if isEmptyPair (q :: qs) && endsQuote v then some (q :: qs).length
      else (closeLength? (q :: qs) (v ++ R)).map (· + (q :: qs).length) := by
  have run' := takeWhile_border ends (q :: qs ++ v)
  rw [run, List.append_assoc] at run'
  rw [List.append_assoc, quotedLength?_run run', endsQuote_append ends]

theorem quotedLength?_plain (plain : ¬isQuote c = true) (t : Text) : quotedLength? (c :: t) = none := by
  rw [quotedLength?, quoted?, List.takeWhile_cons_of_neg plain]
  rfl

theorem hidden?_escape (x : Char) (t : Text) : hidden? ('\\' :: x :: t) = some 2 := rfl

theorem hidden?_cons (plain : c ≠ '\\') (t : Text) : hidden? (c :: t) = quotedLength? (c :: t) := by
  unfold hidden?
  split
  · next same => exact absurd (List.cons.inj same).1 plain
  · next same => exact absurd (List.cons.inj same).1 plain
  · rfl

theorem startsComment_cons (c : Char) (t : Text) :
    startsComment (c :: t) = (c == '/' && t.head? == some '/') := by
  unfold startsComment
  split
  · next same =>
    obtain ⟨rfl, rfl⟩ := List.cons.inj same
    rfl
  · next other =>
    cases t with
    | nil => exact (Bool.and_false _).symm
    | cons d t =>
      refine Eq.symm (Bool.eq_false_iff.mpr fun both => ?_)
      rw [Bool.and_eq_true, beq_iff_eq, beq_iff_eq, List.head?_cons, Option.some.injEq] at both
      obtain ⟨rfl, rfl⟩ := both
      exact other t rfl

/-! ## Pieces that stay -/

/-- What `f` measures at the beginning of `u` in front of `R` goes beyond `u`, or it is measured in front of
`R'` as well. -/
def Kept (f : Text → Option Nat) (u R R' : Text) : Prop :=
  (∃ n, u.length < n ∧ f (u ++ R) = some n) ∨ f (u ++ R') = f (u ++ R)

theorem Kept.later {k : Nat} (h : Kept g v R R') (longer : u.length = v.length + k)
    (step : f (u ++ R) = (g (v ++ R)).map (· + k)) (step' : f (u ++ R') = (g (v ++ R')).map (· + k)) :
    Kept f u R R' := by
  rcases h with ⟨n, beyond, found⟩ | same
  · refine .inl ⟨n + k, by omega, ?_⟩
    rw [step, found]
    rfl
  · exact .inr (by rw [step, step', same])

theorem Kept.congr (h : Kept g u R R') (same : f (u ++ R) = g (u ++ R)) (same' : f (u ++ R') = g (u ++ R')) :
    Kept f u R R' := by
  unfold Kept
  rw [same, same']
  exact h

/-- A piece that ends within `u` stays. -/
theorem Kept.some {n : Nat} (h : Kept f u R R') (found : f (u ++ R) = Option.some n)
    (inside : n ≤ u.length) : f (u ++ R') = Option.some n := by
  rcases h with ⟨m, beyond, found'⟩ | same
  · rw [found, Option.some.injEq] at found'
    omega
  · exact same.trans found

theorem Kept.none (h : Kept f u R R') (nothing : f (u ++ R) = Option.none) : f (u ++ R') = Option.none := by
  rcases h with ⟨m, -, found⟩ | same
  · rw [nothing] at found
    cases found
  · exact same.trans nothing

/-- Where all that `f` measures goes beyond `u`, it is only asked to measure nothing new. -/
theorem kept_of_beyond (beyond : ∀ n, f (u ++ R) = Option.some n → u.length < n)
    (nothing : f (u ++ R) = Option.none → f (u ++ R') = Option.none) : Kept f u R R' := by
  cases found : f (u ++ R) with
  | none => exact .inr ((nothing found).trans found.symm)
  | some n => exact .inl ⟨n, beyond n found, found⟩

/-- A text that cannot be the inside of a string, and another one that ends what stands in front of it like
the first: it closes no string that the first leaves open, also where a backslash hides its first
character. -/
structure Borders (R R' : Text) : Prop where
  nonempty : R ≠ []
  ends : endsQuote R = true
  ends' : endsQuote R' = true
  closes : ∀ mark, IsMark mark → closeLength? mark R = none → closeLength? mark R' = none
  escaped : ∀ mark, IsMark mark → closeLength? mark R.tail = none → closeLength? mark R'.tail = none

theorem borders_end (nonempty : R ≠ []) (ends : endsQuote R = true) : Borders R [] where
  nonempty := nonempty
  ends := ends
  ends' := rfl
  closes _ _ _ := rfl
  escaped _ _ _ := rfl

theorem kept_closeLength (quotes : IsMark mark) (border : Borders R R') (u : Text) :
    Kept (closeLength? mark) u R R' := by
  induction u using closeQuote.induct mark with
  | case1 =>
    exact kept_of_beyond (fun n found => closeLength?_pos quotes found) (border.closes mark quotes)
  | case2 x u ih => exact ih.later rfl (closeLength?_escape x _) (closeLength?_escape x _)
  | case3 c u single first =>
    have plain : c ≠ '\\' := by
      rintro rfl
      exact not_prefix_backslash quotes u first
    have closed (R : Text) : closeLength? mark (c :: (u ++ R)) = some mark.length := by
      rw [closeLength?_cons plain, if_pos]
      rw [List.isPrefixOf_iff_prefix] at first ⊢
      exact first.trans (List.prefix_append (c :: u) R)
    exact .inr ((closed R').trans (closed R).symm)
  | case4 c u single other ih =>
    by_cases plain : c = '\\'
    · -- The backslash is the last character of `u`, and hides the first one behind it.
      subst plain
      have last : u = [] := by
        cases u with
        | nil => rfl
        | cons x u => exact (single x u rfl rfl).elim
      subst last
      refine kept_of_beyond (fun n found => ?_) fun nothing => ?_
      · rw [List.singleton_append, closeLength?_backslash quotes, Option.map_eq_some_iff] at found
        obtain ⟨m, -, rfl⟩ := found
        exact Nat.lt_add_left m (Nat.lt_add_one 1)
      · rw [List.singleton_append, closeLength?_backslash quotes, Option.map_eq_none_iff] at nothing ⊢
        exact border.escaped mark quotes nothing
    · have step (R : Text) (ends : endsQuote R = true) :
          closeLength? mark (c :: u ++ R) = (closeLength? mark (u ++ R)).map (· + 1) := by
        rw [List.cons_append, closeLength?_cons plain, if_neg]
        rw [List.isPrefixOf_iff_prefix] at other ⊢
        rw [← List.cons_append, prefix_border_iff quotes ends]
        exact other
      exact ih.later rfl (step R border.ends) (step R' border.ends')

theorem kept_quotedLength (border : Borders R R') (u : Text) : Kept quotedLength? u R R' := by
  obtain ⟨mark, run⟩ : ∃ mark, u.takeWhile isQuote = mark := ⟨_, rfl⟩
  have quotes : ∀ c ∈ mark, isQuote c = true := by
    rw [← run]
    exact List.all_eq_true.mp List.all_takeWhile
  obtain ⟨v, rfl⟩ : ∃ v, u = mark ++ v :=
    ⟨u.dropWhile isQuote, by rw [← run, List.takeWhile_append_dropWhile]⟩
  cases mark with
  | nil =>
    have nothing {R : Text} (ends : endsQuote R = true) : quotedLength? ([] ++ v ++ R) = none := by
      rw [quotedLength?, quoted?, takeWhile_border ends, run]
      rfl
    exact .inr ((nothing border.ends').trans (nothing border.ends).symm)
  | cons q qs =>
    have here := quotedLength?_border border.ends run
    have there := quotedLength?_border border.ends' run
    by_cases pair : (isEmptyPair (q :: qs) && endsQuote v) = true
    · rw [if_pos pair] at here there
      exact .inr (there.trans here.symm)
    · rw [if_neg pair] at here there
      have closing := kept_closeLength ⟨List.cons_ne_nil q qs, quotes⟩ border v
      exact closing.later (by rw [List.length_append, Nat.add_comm]) here there

theorem kept_hidden (border : Borders R R') (c : Char) (u : Text) : Kept hidden? (c :: u) R R' := by
  by_cases plain : c = '\\'
  · subst plain
    cases u with
    | nil =>
      obtain ⟨x, t, rfl⟩ := List.exists_cons_of_ne_nil border.nonempty
      exact .inl ⟨2, Nat.lt_add_one 1, rfl⟩
    | cons x u => exact .inr rfl
  · exact (kept_quotedLength border (c :: u)).congr (hidden?_cons plain _) (hidden?_cons plain _)

/-! ## Comments in front of the end -/

theorem gapFrom_solid {t : Text} (solid : ¬isLayout c = true) : gapFrom false (c :: t) =
    if c == '/' && t.head? == some '/' then gapFrom true t + 1 else 0 := by
  rw [gapFrom, if_neg solid]

theorem single_slash (c : Char) : (c == '/' && ([] : Text).head? == some '/') = false := Bool.and_false _

theorem gapFrom_comment_pos (nonempty : R ≠ []) : 0 < gapFrom true R := by
  obtain ⟨c, t, rfl⟩ := List.exists_cons_of_ne_nil nonempty
  exact Nat.succ_pos _

/-- White space and comments go on behind `u`, or they end where they do when the text ends with `u`. -/
theorem gapFrom_append (nonempty : R ≠ []) (comment : Bool) (u : Text) :
    u.length < gapFrom comment (u ++ R) ∨ gapFrom comment u = gapFrom comment (u ++ R) := by
  induction u generalizing comment with
  | nil =>
    rw [List.nil_append, gapFrom]
    exact (Nat.eq_zero_or_pos _).symm.imp_right Eq.symm
  | cons c u ih =>
    rw [List.cons_append, List.length_cons]
    cases comment with
    | true =>
      rw [gapFrom, gapFrom, Nat.add_right_cancel_iff, Nat.add_lt_add_iff_right]
      exact ih (c != '\n')
    | false =>
      by_cases layout : isLayout c = true
      · rw [gapFrom, gapFrom, if_pos layout, if_pos layout, Nat.add_right_cancel_iff, Nat.add_lt_add_iff_right]
        exact ih false
      rw [gapFrom_solid layout, gapFrom_solid layout]
      cases u with
      | nil =>
        rw [single_slash, if_neg Bool.false_ne_true, List.nil_append]
        split
        · exact .inl (Nat.succ_lt_succ (gapFrom_comment_pos nonempty))
        · exact .inr rfl
      | cons x u =>
        rw [List.cons_append, List.head?_cons, List.head?_cons]
        split
        · rw [Nat.add_right_cancel_iff, Nat.add_lt_add_iff_right]
          exact ih true
        · exact .inr rfl

theorem hiddenOrComment?_cons (c : Char) (t : Text) : hiddenOrComment? (c :: t) =
    if c == '/' && t.head? == some '/' then some (gap (c :: t)) else hidden? (c :: t) := by
  rw [hiddenOrComment?, startsComment_cons]

/-- What a scan that knows comments passes over goes beyond `u`, or it is the same when the text ends with
`u`. -/
theorem kept_hiddenOrComment (nonempty : R ≠ []) (ends : endsQuote R = true) (c : Char) (u : Text) :
    Kept hiddenOrComment? (c :: u) R [] := by
  have hidden := kept_hidden (borders_end nonempty ends) c u
  have gaps := gapFrom_append nonempty false (c :: u)
  unfold Kept at hidden ⊢
  rw [List.append_nil, List.cons_append] at hidden ⊢
  rw [hiddenOrComment?_cons, hiddenOrComment?_cons]
  cases u with
  | nil =>
    rw [single_slash, if_neg Bool.false_ne_true, List.nil_append]
    split
    · next slashes =>
      rw [Bool.and_eq_true, beq_iff_eq] at slashes
      refine .inl ⟨_, ?_, rfl⟩
      rw [gap, slashes.1, gapFrom_solid (by decide), if_pos (by rw [slashes.2]; rfl)]
      exact Nat.succ_lt_succ (gapFrom_comment_pos nonempty)
    · exact hidden
  | cons x u =>
    rw [List.cons_append, List.head?_cons, List.head?_cons] at *
    split
    · exact gaps.imp (fun beyond => ⟨_, beyond, rfl⟩) (congrArg some)
    · exact hidden

/-- A piece that ends within the text is the same when the text ends there. -/
theorem hiddenOrComment?_cut_some (nonempty : R ≠ []) (ends : endsQuote R = true) {n : Nat}
    (whole : hiddenOrComment? (c :: (u ++ R)) = some n) (inside : n ≤ u.length + 1) :
    hiddenOrComment? (c :: u) = some n := by
  have kept := (kept_hiddenOrComment nonempty ends c u).some whole inside
  rwa [List.append_nil] at kept

theorem hiddenOrComment?_cut_none (nonempty : R ≠ []) (ends : endsQuote R = true)
    (whole : hiddenOrComment? (c :: (u ++ R)) = none) : hiddenOrComment? (c :: u) = none := by
  have kept := (kept_hiddenOrComment nonempty ends c u).none whole
  rwa [List.append_nil] at kept

end Gapscript.Lexical
