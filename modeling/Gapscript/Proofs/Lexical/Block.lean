import Gapscript.Proofs.Lexical.Boundary

/-!
# Where a block ends

The scan for the end of a block passes over a quoted string in one piece, and over a quote that
nothing closes as over any other character. Which of the two a quote is depends on all the text
behind it, also on what stands behind the block: `\x7bit's\x7d` is a block, and in front of ` don't`
its brace is inside the string `'s\x7d don'`. Everything else that the scan decides, it decides by
the text of the block (`blockLength_closed_iff`).
-/

namespace Gapscript.Lexical

variable {u v T mark : Text} {f g : Text → Option Nat} {c : Char}

/-! ## Pieces in front of a closing brace -/

/-- In front of a brace that closes `u`, `f` measures a piece of `u`, whatever follows the brace, or
it measures none that ends within `u`. -/
def Within (f : Text → Option Nat) (u : Text) : Prop :=
  (∃ n, n ≤ u.length ∧ ∀ T, f (u ++ '\x7d' :: T) = some n) ∨
    ∀ T n, f (u ++ '\x7d' :: T) = some n → u.length < n

theorem Within.later {k : Nat} (h : Within g v) (longer : u.length = v.length + k)
    (step : ∀ T, f (u ++ '\x7d' :: T) = (g (v ++ '\x7d' :: T)).map (· + k)) : Within f u := by
  rcases h with ⟨n, inside, found⟩ | outside
  · refine .inl ⟨n + k, by omega, fun T => ?_⟩
    rw [step, found]
    rfl
  · refine .inr fun T n found => ?_
    rw [step, Option.map_eq_some_iff] at found
    obtain ⟨m, found, rfl⟩ := found
    have := outside T m found
    omega

theorem Within.congr (h : Within g u) (same : ∀ T, f (u ++ '\x7d' :: T) = g (u ++ '\x7d' :: T)) :
    Within f u := by
  simpa only [Within, same] using h

theorem within_closeLength (quotes : IsMark mark) (u : Text) : Within (closeLength? mark) u := by
  induction u using closeQuote.induct mark with
  | case1 =>
    refine .inr fun T n found => ?_
    exact closeLength?_pos quotes found
  | case2 x u ih => exact ih.later rfl fun T => closeLength?_escape x _
  | case3 c u single first =>
    have plain : c ≠ '\\' := by
      rintro rfl
      exact not_prefix_backslash quotes u first
    rw [List.isPrefixOf_iff_prefix] at first
    refine .inl ⟨mark.length, first.length_le, fun T => ?_⟩
    rw [List.cons_append, closeLength?_cons plain, if_pos]
    rw [List.isPrefixOf_iff_prefix, ← List.cons_append]
    exact first.trans (List.prefix_append (c :: u) _)
  | case4 c u single other ih =>
    by_cases plain : c = '\\'
    · -- The backslash stands in front of the brace, and hides it.
      subst plain
      have last : u = [] := by
        cases u with
        | nil => rfl
        | cons x u => exact (single x u rfl rfl).elim
      subst last
      refine .inr fun T n found => ?_
      rw [List.singleton_append, closeLength?_escape, Option.map_eq_some_iff] at found
      obtain ⟨m, -, rfl⟩ := found
      exact Nat.lt_add_left m (by decide)
    · refine ih.later rfl fun T => ?_
      rw [List.cons_append, closeLength?_cons plain, if_neg]
      rw [List.isPrefixOf_iff_prefix] at other ⊢
      rw [← List.cons_append, prefix_border_iff quotes rfl]
      exact other

/-- The length of the string that a run of quotes opens in front of a closing brace. -/
theorem quotedLength?_closed {q : Char} {qs : List Char} (T : Text)
    (run : (q :: qs ++ v).takeWhile isQuote = q :: qs) :
    quotedLength? (q :: qs ++ v ++ '\x7d' :: T) =
      if isEmptyPair (q :: qs) && endsQuote (v ++ ['\x7d']) then some (q :: qs).length
      else (closeLength? (q :: qs) (v ++ '\x7d' :: T)).map (· + (q :: qs).length) := by
  rw [quotedLength?_border rfl run, endsQuote_append rfl]

theorem within_quotedLength (u : Text) : Within quotedLength? u := by
  obtain ⟨mark, run⟩ : ∃ mark, u.takeWhile isQuote = mark := ⟨_, rfl⟩
  have quotes : ∀ c ∈ mark, isQuote c = true := by
    rw [← run]
    exact List.all_eq_true.mp List.all_takeWhile
  obtain ⟨v, rfl⟩ : ∃ v, u = mark ++ v :=
    ⟨u.dropWhile isQuote, by rw [← run, List.takeWhile_append_dropWhile]⟩
  cases mark with
  | nil =>
    refine .inr fun T n found => ?_
    rw [quotedLength?, quoted?, takeWhile_border rfl, run] at found
    cases found
  | cons q qs =>
    by_cases pair : (isEmptyPair (q :: qs) && endsQuote (v ++ ['\x7d'])) = true
    · refine .inl ⟨(q :: qs).length, by simp, fun T => ?_⟩
      rw [quotedLength?_closed T run, if_pos pair]
    · have closing := within_closeLength ⟨List.cons_ne_nil q qs, quotes⟩ v
      refine closing.later (by rw [List.length_append, Nat.add_comm]) fun T => ?_
      rw [quotedLength?_closed T run, if_neg pair]

theorem head?_closed (u T : Text) : (u ++ '\x7d' :: T).head? = (u ++ ['\x7d']).head? := by
  cases u with
  | nil => rfl
  | cons => rfl

/-- White space and comments end in front of the brace, or they hide it. -/
theorem within_gapFrom (comment : Bool) (u : Text) : Within (fun t => some (gapFrom comment t)) u := by
  induction u generalizing comment with
  | nil =>
    cases comment with
    | true =>
      refine .inr fun T n found => ?_
      cases found
      exact Nat.succ_pos _
    | false => exact .inl ⟨0, Nat.le_refl 0, fun T => rfl⟩
  | cons c u ih =>
    cases comment with
    | true => exact (ih (c != '\n')).later rfl fun T => rfl
    | false =>
      by_cases layout : isLayout c = true
      · refine (ih false).later rfl fun T => ?_
        rw [List.cons_append, gapFrom, if_pos layout]
        rfl
      · by_cases slashes : (c == '/' && (u ++ ['\x7d']).head? == some '/') = true
        · refine (ih true).later rfl fun T => ?_
          rw [List.cons_append, gapFrom, if_neg layout, head?_closed, if_pos slashes]
          rfl
        · refine .inl ⟨0, Nat.zero_le _, fun T => ?_⟩
          dsimp only
          rw [List.cons_append, gapFrom, if_neg layout, head?_closed, if_neg slashes]

theorem within_hidden (c : Char) (u : Text) : Within hidden? (c :: u) := by
  by_cases plain : c = '\\'
  · subst plain
    cases u with
    | nil =>
      refine .inr fun T n found => ?_
      cases found
      exact Nat.lt_add_one 1
    | cons x u => exact .inl ⟨2, by simp, fun T => hidden?_escape x _⟩
  · have quoted := within_quotedLength (c :: u)
    refine quoted.congr fun T => ?_
    rw [List.cons_append, hidden?_cons plain]

/-- A piece that the scan passes over ends in front of the brace, whatever follows, or it is none
that ends there. -/
theorem within_hiddenOrComment (c : Char) (u : Text) : Within hiddenOrComment? (c :: u) := by
  by_cases comment : (c == '/' && (u ++ ['\x7d']).head? == some '/') = true
  · refine (within_gapFrom false (c :: u)).congr fun T => ?_
    rw [List.cons_append, hiddenOrComment?, startsComment_cons, head?_closed, if_pos comment]
    rfl
  · refine (within_hidden c u).congr fun T => ?_
    rw [List.cons_append, hiddenOrComment?, startsComment_cons, head?_closed, if_neg comment]

/-! ## The scan -/

/-- The texts ahead where the scan of a block looks for what comes next. -/
def looks : (hidden : Nat) → Text → List Text
  | _, [] => []
  | n + 1, _ :: cs => looks n cs
  | 0, c :: cs => (c :: cs) :: looks ((hiddenOrComment? (c :: cs)).getD 1 - 1) cs

/-- Text behind a block closes no quote that the scan of the block alone passes over as a plain
character. -/
def ClosesNone (T : Text) (texts : List Text) : Prop :=
  ∀ t ∈ texts, quotedLength? t = none → quotedLength? (t ++ T) = none

theorem closesNone_cons {t : Text} {texts : List Text} : ClosesNone T (t :: texts) ↔
    (quotedLength? t = none → quotedLength? (t ++ T) = none) ∧ ClosesNone T texts :=
  List.forall_mem_cons

theorem hidden_le_of_blockLength {depth h k : Nat} {t : Text} (found : blockLength depth h t = some k) :
    h ≤ k := by
  induction h generalizing t k with
  | zero => exact Nat.zero_le k
  | succ h ih =>
    cases t with
    | nil => cases found
    | cons c t =>
      rw [blockLength, Option.map_eq_some_iff] at found
      obtain ⟨m, found, rfl⟩ := found
      exact Nat.succ_le_succ (ih found)

/-- Escapes and comments are no quotes in front of any text. -/
theorem quotedLength?_of_hidden {n : Nat} {t : Text} (hidden : hiddenOrComment? (c :: t) = some n)
    (unclosed : quotedLength? (c :: t) = none) (t' : Text) : quotedLength? (c :: t') = none := by
  refine quotedLength?_plain (fun quote => ?_) t'
  have plain : c ≠ '\\' := by
    rintro rfl
    exact absurd quote (by decide)
  have slash : (c == '/') = false := by
    refine beq_eq_false_iff_ne.mpr ?_
    rintro rfl
    exact absurd quote (by decide)
  rw [hiddenOrComment?, startsComment_cons, slash, Bool.false_and, if_neg Bool.false_ne_true,
    hidden?_cons plain, unclosed] at hidden
  cases hidden

/-- Where the scan of a block alone passes over a single character, only a quote can hide something
when more text follows. -/
theorem hiddenOrComment?_of_none (single : hiddenOrComment? (c :: u ++ ['\x7d']) = none) (T : Text) :
    hiddenOrComment? (c :: u ++ '\x7d' :: T) = quotedLength? (c :: u ++ '\x7d' :: T) := by
  rw [List.cons_append, hiddenOrComment?, startsComment_cons] at single ⊢
  rw [head?_closed]
  split at single
  · cases single
  · next comment =>
    rw [if_neg comment]
    refine hidden?_cons ?_ _
    rintro rfl
    cases u with
    | nil => cases single
    | cons => cases single

theorem blockLength_single {depth : Nat} {t : Text} (single : hiddenOrComment? (c :: t) = none) :
    blockLength depth 0 (c :: t) =
      if c == '\x7b' then (blockLength (depth + 1) 0 t).map (· + 1)
      else if c == '\x7d' then
        if depth ≤ 1 then some 0 else (blockLength (depth - 1) 0 t).map (· + 1)
      else (blockLength depth 0 t).map (· + 1) := by
  rw [blockLength, single]

theorem blockLength_hidden {depth n : Nat} {t : Text} (hidden : hiddenOrComment? (c :: t) = some n) :
    blockLength depth 0 (c :: t) = (blockLength depth (n - 1) t).map (· + 1) := by
  rw [blockLength, hidden]

theorem looks_cons (t : Text) :
    looks 0 (c :: t) = (c :: t) :: looks ((hiddenOrComment? (c :: t)).getD 1 - 1) t := rfl

theorem map_succ_eq_iff {n? : Option Nat} {n : Nat} : n?.map (· + 1) = some (n + 1) ↔ n? = some n := by
  cases n? with
  | none => simp
  | some m => simp

/-- Two scans that pass over one character alike agree if they agree behind it. -/
theorem blockLength_single_iff {depth k : Nat} {t t' : Text} {p : Prop}
    (single : hiddenOrComment? (c :: t) = none) (single' : hiddenOrComment? (c :: t') = none)
    (alone : blockLength depth 0 (c :: t) = some (k + 1))
    (behind : ∀ depth, blockLength depth 0 t = some k → (blockLength depth 0 t' = some k ↔ p)) :
    blockLength depth 0 (c :: t') = some (k + 1) ↔ p := by
  rw [blockLength_single single']
  rw [blockLength_single single] at alone
  split at alone
  · next opens =>
    rw [if_pos opens, map_succ_eq_iff, behind _ (map_succ_eq_iff.mp alone)]
  · next inside =>
    rw [if_neg inside]
    split at alone
    · next closes =>
      rw [if_pos closes]
      split at alone
      · cases alone
      · next inner =>
        rw [if_neg inner, map_succ_eq_iff, behind _ (map_succ_eq_iff.mp alone)]
    · next plain =>
      rw [if_neg plain, map_succ_eq_iff, behind _ (map_succ_eq_iff.mp alone)]

/-- The scan finds the same end in front of `T` exactly if `T` closes no quote left open. -/
theorem blockLength_closed_iff {depth h : Nat} {u : Text} (T : Text)
    (alone : blockLength depth h (u ++ ['\x7d']) = some u.length) :
    blockLength depth h (u ++ '\x7d' :: T) = some u.length ↔
      ClosesNone T (looks h (u ++ ['\x7d'])) := by
  induction u generalizing depth h with
  | nil =>
    cases h with
    | succ h => cases alone
    | zero =>
      have brace (T : Text) : blockLength depth 0 ('\x7d' :: T) =
          if depth ≤ 1 then some 0 else (blockLength (depth - 1) 0 T).map (· + 1) :=
        blockLength_single rfl
      have last : depth ≤ 1 := by
        refine Decidable.byContradiction fun inner => ?_
        rw [List.nil_append, brace, if_neg inner, Option.map_eq_some_iff] at alone
        obtain ⟨m, -, same⟩ := alone
        cases same
      have closed : ClosesNone T (looks 0 ['\x7d']) :=
        closesNone_cons.mpr ⟨fun _ => quotedLength?_plain (by decide) T, List.forall_mem_nil _⟩
      rw [List.nil_append, brace, if_pos last]
      exact iff_of_true rfl closed
  | cons c u ih =>
    cases h with
    | succ h => exact map_succ_eq_iff.trans (ih (map_succ_eq_iff.mp alone))
    | zero =>
      have alone : blockLength depth 0 (c :: (u ++ ['\x7d'])) = some (u.length + 1) := alone
      have joined : c :: (u ++ ['\x7d']) ++ T = c :: (u ++ '\x7d' :: T) := by simp
      change blockLength depth 0 (c :: (u ++ '\x7d' :: T)) = some (u.length + 1) ↔
        ClosesNone T (looks 0 (c :: (u ++ ['\x7d'])))
      rw [looks_cons, closesNone_cons, joined]
      rcases within_hiddenOrComment c u with ⟨n, -, found⟩ | outside
      · have here := found []
        have ahead := found T
        rw [List.cons_append] at here ahead
        rw [blockLength_hidden here, map_succ_eq_iff] at alone
        rw [blockLength_hidden ahead, map_succ_eq_iff, ih alone, here, Option.getD_some]
        exact (and_iff_right fun unclosed => quotedLength?_of_hidden here unclosed _).symm
      · have single : hiddenOrComment? (c :: (u ++ ['\x7d'])) = none := by
          cases hidden : hiddenOrComment? (c :: (u ++ ['\x7d'])) with
          | none => rfl
          | some n =>
            rw [blockLength_hidden hidden, map_succ_eq_iff] at alone
            have beyond := outside [] n hidden
            have covered := hidden_le_of_blockLength alone
            rw [List.length_cons] at beyond
            omega
        have quote := hiddenOrComment?_of_none single
        have unclosed : quotedLength? (c :: (u ++ ['\x7d'])) = none := (quote []).symm.trans single
        rw [single, unclosed, Option.getD_none]
        cases ahead : hiddenOrComment? (c :: (u ++ '\x7d' :: T)) with
        | some n =>
          have closes : quotedLength? (c :: (u ++ '\x7d' :: T)) = some n := (quote T).symm.trans ahead
          have beyond := outside T n ahead
          rw [List.length_cons] at beyond
          rw [blockLength_hidden ahead, map_succ_eq_iff, closes]
          refine iff_of_false (fun found => ?_) (by simp)
          have covered := hidden_le_of_blockLength found
          omega
        | none =>
          have stays : quotedLength? (c :: (u ++ '\x7d' :: T)) = none := (quote T).symm.trans ahead
          rw [stays, and_iff_right fun _ => rfl]
          exact blockLength_single_iff single ahead alone fun _ => ih

/-! ## Blocks -/

theorem block_eq (t : Text) (pos : Position) : block ⟨'\x7b' :: t, pos⟩ =
    match blockLength 1 0 t with
    | some n => .ok (⟨t.take n, pos.after '\x7b'⟩, Cursor.skip (n + 1) ⟨t, pos.after '\x7b'⟩)
    | none => .error (unexpected ⟨'\x7b' :: t, pos⟩ "unterminated block") := rfl

theorem block_of_length {S : Text} (pos : Position)
    (found : blockLength 1 0 (S ++ '\x7d' :: T) = some S.length) :
    block ⟨'\x7b' :: (S ++ '\x7d' :: T), pos⟩ =
      .ok (⟨S, pos.after '\x7b'⟩, ⟨T, (pos.after '\x7b').afterText (S ++ ['\x7d'])⟩) := by
  have split : S ++ '\x7d' :: T = S ++ ['\x7d'] ++ T := by simp
  have length : S.length + 1 = (S ++ ['\x7d']).length := by simp
  rw [block_eq, found]
  dsimp only
  rw [Cursor.skip_eq, List.take_left]
  dsimp only
  rw [split, length, List.take_left, List.drop_left]

theorem length_of_block {S : Text} {pos : Position} {body after : Cursor}
    (read : block ⟨'\x7b' :: (S ++ '\x7d' :: T), pos⟩ = .ok (body, after)) (exact : body.rest = S) :
    blockLength 1 0 (S ++ '\x7d' :: T) = some S.length := by
  rw [block_eq] at read
  split at read
  · next n found =>
    cases read
    have short : ((S ++ '\x7d' :: T).take n).length = S.length := congrArg List.length exact
    rw [List.length_take, List.length_append, List.length_cons] at short
    rw [found]
    congr 1
    omega
  · cases read

end Gapscript.Lexical

namespace Gapscript

open Lexical

/-- A text that is a block is a block in front of any text that closes no quote left open in it, and
of no other. -/
theorem block_apart_iff (S T : Text) (pos : Position) (body after : Cursor)
    (alone : block ⟨'\x7b' :: (S ++ ['\x7d']), pos⟩ = .ok (body, after)) (exact : body.rest = S) :
    after.rest = [] ∧
    (ClosesNone T (looks 0 (S ++ ['\x7d'])) →
      block ⟨'\x7b' :: (S ++ '\x7d' :: T), pos⟩ = .ok (body, { after with rest := T })) ∧
    (¬ClosesNone T (looks 0 (S ++ ['\x7d'])) →
      ∀ body' after', block ⟨'\x7b' :: (S ++ '\x7d' :: T), pos⟩ = .ok (body', after') → body'.rest ≠ S) := by
  have length := length_of_block alone exact
  rw [block_of_length pos length] at alone
  cases alone
  refine ⟨rfl, fun clear => ?_, fun closed body' after' read same => ?_⟩
  · exact block_of_length pos ((blockLength_closed_iff T length).mpr clear)
  · exact closed ((blockLength_closed_iff T length).mp (length_of_block read same))

/-- An apostrophe that is closed in the block, and one that is not closed at all. -/
theorem block_apart_iff_apostrophes :
    let S := "say 'so\x7d' if it's".toList
    let T := " tail \x7d".toList
    ∃ body after, block ⟨'\x7b' :: (S ++ ['\x7d']), {}⟩ = .ok (body, after) ∧ body.rest = S ∧
      block ⟨'\x7b' :: (S ++ '\x7d' :: T), {}⟩ = .ok (body, { after with rest := T }) := by
  intro S T
  have length : blockLength 1 0 (S ++ ['\x7d']) = some S.length := by decide
  have alone := block_of_length {} length
  have apart := block_apart_iff S T {} _ _ alone rfl
  have clear : ClosesNone T (looks 0 (S ++ ['\x7d'])) := by
    unfold ClosesNone
    decide
  exact ⟨_, _, alone, rfl, apart.2.1 clear⟩

/-- An apostrophe in the block and one behind it hide the closing brace. -/
theorem block_runs_over :
    ¬∀ (S T : Text) (pos : Position) (body after : Cursor),
      block ⟨'\x7b' :: (S ++ ['\x7d']), pos⟩ = .ok (body, after) → body.rest = S → after.rest = [] →
      ∃ body' after', block ⟨'\x7b' :: (S ++ '\x7d' :: T), pos⟩ = .ok (body', after') ∧
        body'.rest = S ∧ after'.rest = T := by
  intro apart
  obtain ⟨body, after, read, -, -⟩ := apart "it's".toList " don't".toList {} _ _ rfl rfl rfl
  cases read

end Gapscript
