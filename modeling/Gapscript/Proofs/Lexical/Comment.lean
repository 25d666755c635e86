import Gapscript.Proofs.Lexical.Boundary

/-!
# Comments in the source of an expression

The body of a function that is no block is kept as text, and the scan for its end knows no comments: it
looks into them as into any other text. A comment that it comes out of with as many brackets open as it
came in with is white space for it all the same (`level_comment_as_space`). A comment without quotes,
backslashes and brackets is such a comment exactly if it holds no end of the source, or stands within
brackets; otherwise the body ends in the comment.
-/

namespace Gapscript

/-- A terminator that judges by the first character alone. -/
def Terminator.Charwise (term : Terminator) : Prop := ∀ c t u, term (c :: t) = term (c :: u)

namespace Lexical

variable {term : Terminator} {d d' h h' : Nat} {t u v C C' R R' mark : Text} {c : Char}

/-! ## The way of the scan -/

/-- The brackets open and the characters to be passed over behind the first character of a source. There
are none where the source ends. -/
def sourceMove? (term : Terminator) (d : Nat) (c : Char) (t : Text) : Option (Nat × Nat) :=
  if d == 0 && Terminator.statement.or term (c :: t) then none
  else match hidden? (c :: t) with
    | some n => some (d, n - 1)
    | none =>
      if opensBracket c then some (d + 1, 0)
      else if closesBracket c then if d == 0 then none else some (d - 1, 0)
      else some (d, 0)

theorem sourceLength_move (found : sourceMove? term d c t = some (d', h)) :
    sourceLength term d 0 (c :: t) = sourceLength term d' h t + 1 := by
  unfold sourceMove? Terminator.or at found
  rw [sourceLength]
  grind

theorem sourceLength_stop (nothing : sourceMove? term d c t = none) : sourceLength term d 0 (c :: t) = 0 := by
  unfold sourceMove? Terminator.or at nothing
  rw [sourceLength]
  grind

/-- The brackets open where the scan of a source has passed over `u` and comes to `R`. There are none where
it ends before, or passes over the beginning of `R` together with the end of `u`. -/
def depthAt? (term : Terminator) (R : Text) : (depth hidden : Nat) → (u : Text) → Option Nat
  | d, 0, [] => some d
  | _, _ + 1, [] => none
  | d, h + 1, _ :: u => depthAt? term R d h u
  | d, 0, c :: u => (sourceMove? term d c (u ++ R)).bind fun (d', h) => depthAt? term R d' h u

/-- Behind what it has passed over, the scan goes on as from there. -/
theorem sourceLength_of_depthAt? (arrives : depthAt? term R d h u = some d') :
    sourceLength term d h (u ++ R) = u.length + sourceLength term d' 0 R := by
  fun_induction depthAt? term R d h u with
  | case1 d =>
    cases arrives
    exact (Nat.zero_add _).symm
  | case2 => cases arrives
  | case3 d h c u ih =>
    rw [List.cons_append, sourceLength, ih arrives, List.length_cons, Nat.add_right_comm]
  | case4 d c u ih =>
    obtain ⟨⟨d', h⟩, found, arrives⟩ := Option.bind_eq_some_iff.mp arrives
    rw [List.cons_append, sourceLength_move found, ih d' h arrives, List.length_cons, Nat.add_right_comm]

theorem depthAt?_append (arrives : depthAt? term (v ++ R) d h u = some d') :
    depthAt? term R d h (u ++ v) = depthAt? term R d' 0 v := by
  fun_induction depthAt? term (v ++ R) d h u with
  | case1 d =>
    cases arrives
    rfl
  | case2 => cases arrives
  | case3 d h c u ih => exact ih arrives
  | case4 d c u ih =>
    obtain ⟨⟨d', h⟩, found, arrives⟩ := Option.bind_eq_some_iff.mp arrives
    rw [List.cons_append, depthAt?, List.append_assoc, found, Option.bind_some]
    exact ih d' h arrives

/-- The scan comes to `R` only if what it has to pass over ends there. -/
theorem hidden_le_of_depthAt? (arrives : depthAt? term R d h u = some d') : h ≤ u.length := by
  fun_induction depthAt? term R d h u with
  | case1 => exact Nat.le_refl 0
  | case2 => cases arrives
  | case3 d h c u ih => exact Nat.succ_le_succ (ih arrives)
  | case4 => exact Nat.zero_le _

/-! ## Another text behind -/

theorem statement_cons (c : Char) (t : Text) :
    Terminator.statement (c :: t) = (c == '?' || c == '!' && t.head? != some '=') := by
  by_cases question : c = '?'
  · rw [question]
    rfl
  by_cases bang : c = '!'
  · subst bang
    cases t with
    | nil => rfl
    | cons x t =>
      by_cases equals : x = '='
      · rw [equals]
        rfl
      · rw [Terminator.statement, List.head?_cons, bne_iff_ne.mpr fun same => equals (Option.some.inj same)]
        · rfl
        · intro u same
          exact equals (List.cons.inj same).1
  · rw [beq_eq_false_iff_ne.mpr question, beq_eq_false_iff_ne.mpr bang, Terminator.statement]
    · rfl
    · exact fun u same => question (List.cons.inj same).1
    · exact fun u same => bang (List.cons.inj same).1
    · exact fun u same => bang (List.cons.inj same).1

theorem charwise_tokens {ts : List String} (single : ∀ s ∈ ts, s.toList.length = 1) :
    (Terminator.tokens ts).Charwise := by
  intro c t u
  have same (s : String) (inside : s ∈ ts) : s.toList.isPrefixOf (c :: t) = s.toList.isPrefixOf (c :: u) := by
    obtain ⟨x, one⟩ := List.length_eq_one_iff.mp (single s inside)
    rw [one]
    rfl
  unfold Terminator.tokens
  rw [Bool.eq_iff_iff, List.any_eq_true, List.any_eq_true]
  exact exists_congr fun s => and_congr_right fun inside => by rw [same s inside]

/-- Whether the end of a statement comes next is not changed behind. -/
theorem stops_append (charwise : term.Charwise) (apart : R.head? ≠ some '=') (apart' : R'.head? ≠ some '=')
    (c : Char) (u : Text) :
    Terminator.statement.or term (c :: (u ++ R')) = Terminator.statement.or term (c :: (u ++ R)) := by
  unfold Terminator.or
  rw [charwise c (u ++ R') (u ++ R), statement_cons, statement_cons]
  cases u with
  | nil => rw [List.nil_append, List.nil_append, bne_iff_ne.mpr apart, bne_iff_ne.mpr apart']
  | cons x u => rfl

/-- What the scan passes over in front of `R` it passes over in front of `R'`. -/
theorem depthAt?_replaced (charwise : term.Charwise) (border : Borders R R') (apart : R.head? ≠ some '=')
    (apart' : R'.head? ≠ some '=') (arrives : depthAt? term R d h u = some d') :
    depthAt? term R' d h u = some d' := by
  fun_induction depthAt? term R d h u with
  | case1 => exact arrives
  | case2 => cases arrives
  | case3 d h c u ih => exact ih arrives
  | case4 d c u ih =>
    obtain ⟨⟨d', h⟩, found, arrives⟩ := Option.bind_eq_some_iff.mp arrives
    have covered := hidden_le_of_depthAt? arrives
    have kept := kept_hidden border c u
    have same : sourceMove? term d c (u ++ R') = some (d', h) := by
      unfold sourceMove? at found ⊢
      rw [stops_append charwise apart apart']
      split at found
      · cases found
      · next goes =>
        rw [if_neg goes]
        cases hidden : hidden? (c :: (u ++ R)) with
        | some n =>
          rw [hidden] at found
          cases found
          have inside : n ≤ (c :: u).length := by
            rw [List.length_cons]
            omega
          rw [show hidden? (c :: (u ++ R')) = some n from kept.some hidden inside]
        | none =>
          rw [hidden] at found
          rw [show hidden? (c :: (u ++ R')) = none from kept.none hidden]
          exact found
    rw [depthAt?, same, Option.bind_some]
    exact ih d' h arrives

/-! ## Plain characters -/

/-- A character that stands for itself in a source: no quote, no backslash and no bracket. -/
def isPlain (c : Char) : Bool := !(isQuote c || c == '\\' || opensBracket c || closesBracket c)

/-- An end of the source stands in the text. -/
def holdsStop (term : Terminator) : Text → Bool
  | [] => false
  | c :: t => Terminator.statement.or term (c :: t) || holdsStop term t

theorem isPlain_iff : isPlain c = true ↔
    isQuote c = false ∧ c ≠ '\\' ∧ opensBracket c = false ∧ closesBracket c = false := by
  rw [isPlain, Bool.not_eq_true', Bool.or_eq_false_iff, Bool.or_eq_false_iff, Bool.or_eq_false_iff,
    beq_eq_false_iff_ne, and_assoc, and_assoc]

theorem sourceMove?_plain (plain : isPlain c = true)
    (goes : ¬(d == 0 && Terminator.statement.or term (c :: t)) = true) : sourceMove? term d c t = some (d, 0) := by
  obtain ⟨quote, escape, opens, closes⟩ := isPlain_iff.mp plain
  have single : hidden? (c :: t) = none := by
    rw [hidden?_cons escape, quotedLength?_plain]
    rw [quote]
    exact Bool.false_ne_true
  rw [sourceMove?, if_neg goes, single, opens, closes]
  rfl

/-- The scan passes over plain characters one by one. -/
theorem depthAt?_plain (charwise : term.Charwise) (apart : R.head? ≠ some '=') (plain : u.all isPlain = true)
    (goes : d = 0 → holdsStop term u = false) : depthAt? term R d 0 u = some d := by
  induction u with
  | nil => rfl
  | cons c u ih =>
    rw [List.all_cons, Bool.and_eq_true] at plain
    have here : ¬(d == 0 && Terminator.statement.or term (c :: (u ++ R))) = true := by
      rw [stops_append (R := []) charwise (by simp) apart, List.append_nil, Bool.and_eq_true, beq_iff_eq]
      rintro ⟨outer, stops⟩
      have := goes outer
      rw [holdsStop, stops] at this
      cases this
    rw [depthAt?, sourceMove?_plain plain.1 here, Option.bind_some]
    refine ih plain.2 fun outer => ?_
    have := goes outer
    rw [holdsStop, Bool.or_eq_false_iff] at this
    exact this.2

/-- Outside of all brackets the scan ends where plain characters hold an end of the source. -/
theorem exists_stop (charwise : term.Charwise) (apart : R.head? ≠ some '=') (plain : u.all isPlain = true)
    (stops : holdsStop term u = true) : ∃ a b, u = a ++ b ∧ b ≠ [] ∧
      depthAt? term (b ++ R) 0 0 a = some 0 ∧ sourceLength term 0 0 (b ++ R) = 0 := by
  induction u with
  | nil => cases stops
  | cons c u ih =>
    rw [List.all_cons, Bool.and_eq_true] at plain
    cases here : Terminator.statement.or term (c :: (u ++ R)) with
    | true =>
      refine ⟨[], c :: u, rfl, List.cons_ne_nil c u, rfl, sourceLength_stop ?_⟩
      exact if_pos here
    | false =>
      have goes : ¬(0 == 0 && Terminator.statement.or term (c :: (u ++ R))) = true := by
        rw [here]
        exact Bool.false_ne_true
      rw [stops_append (R := []) charwise (by simp) apart, List.append_nil] at here
      rw [holdsStop, here, Bool.false_or] at stops
      obtain ⟨a, b, rfl, rest, arrives, ended⟩ := ih plain.2 stops
      refine ⟨c :: a, b, rfl, rest, ?_, ended⟩
      rw [depthAt?, ← List.append_assoc, sourceMove?_plain plain.1 goes, Option.bind_some]
      exact arrives

/-! ## What comments hide -/

/-- Plain characters close no string. -/
theorem closeLength?_plain (quotes : IsMark mark) (plain : u.all isPlain = true)
    (nothing : closeLength? mark R = none) : closeLength? mark (u ++ R) = none := by
  induction u with
  | nil => exact nothing
  | cons c u ih =>
    rw [List.all_cons, Bool.and_eq_true] at plain
    obtain ⟨quote, escape, -, -⟩ := isPlain_iff.mp plain.1
    rw [List.cons_append, closeLength?_cons escape, if_neg, ih plain.2]
    · rfl
    · rw [List.isPrefixOf_iff_prefix]
      intro first
      cases mark with
      | nil => exact quotes.1 rfl
      | cons q mark =>
        have := quotes.2 q List.mem_cons_self
        rw [(List.cons_prefix_cons.mp first).1, quote] at this
        cases this

/-- What a text does not close, its end does not close. -/
theorem closeLength?_behind (quotes : IsMark mark) (ends : endsQuote R = true)
    (nothing : closeLength? mark (u ++ R) = none) : closeLength? mark R = none := by
  induction u using closeQuote.induct mark with
  | case1 => exact nothing
  | case2 x u ih =>
    refine ih ?_
    rwa [List.cons_append, List.cons_append, closeLength?_escape, Option.map_eq_none_iff] at nothing
  | case3 c u single first =>
    have plain : c ≠ '\\' := by
      rintro rfl
      exact not_prefix_backslash quotes u first
    rw [List.isPrefixOf_iff_prefix] at first
    rw [List.cons_append, closeLength?_cons plain, if_pos] at nothing
    · cases nothing
    · exact List.isPrefixOf_iff_prefix.mpr (first.trans (List.prefix_append (c :: u) R))
  | case4 c u single other ih =>
    by_cases plain : c = '\\'
    · -- The backslash hides the first character of `R`, which closes nothing either.
      subst plain
      have last : u = [] := by
        cases u with
        | nil => rfl
        | cons x u => exact (single x u rfl rfl).elim
      subst last
      rw [List.singleton_append, closeLength?_backslash quotes, Option.map_eq_none_iff] at nothing
      cases R with
      | nil => exact nothing
      | cons x t =>
        rw [closeLength?_cons (ne_backslash_of_endsQuote ends), if_neg (not_prefix_border quotes ends),
          show closeLength? mark t = none from nothing]
        rfl
    · refine ih ?_
      rw [List.cons_append, closeLength?_cons plain] at nothing
      split at nothing
      · cases nothing
      · exact Option.map_eq_none_iff.mp nothing

/-! ## Comments and white space -/

theorem exists_of_gap_pos (space : 0 < gap t) : ∃ c u, t = c :: u ∧ (isLayout c = true ∨ c = '/') := by
  cases t with
  | nil => cases space
  | cons c u =>
    refine ⟨c, u, rfl, ?_⟩
    by_cases layout : isLayout c = true
    · exact .inl layout
    · rw [gap, gapFrom_solid layout] at space
      split at space
      · next slashes =>
        rw [Bool.and_eq_true, beq_iff_eq] at slashes
        exact .inr slashes.1
      · cases space

theorem endsQuote_of_gap_pos (space : 0 < gap t) (R : Text) : endsQuote (t ++ R) = true := by
  obtain ⟨c, u, rfl, layout | rfl⟩ := exists_of_gap_pos space
  · rw [List.cons_append, endsQuote, layout, Bool.true_or]
  · rfl

theorem apart_of_gap_pos (space : 0 < gap t) (R : Text) : (t ++ R).head? ≠ some '=' := by
  obtain ⟨c, u, rfl, layout | rfl⟩ := exists_of_gap_pos space
  · rintro same
    cases same
    cases layout
  · rintro same
    cases same

theorem gap_pos_of_startsComment (comment : startsComment t = true) : 0 < gap t := by
  cases t with
  | nil => cases comment
  | cons c u =>
    rw [startsComment_cons] at comment
    have slash : c = '/' := by
      rw [Bool.and_eq_true, beq_iff_eq] at comment
      exact comment.1
    rw [gap, gapFrom_solid (by rw [slash]; decide), if_pos comment]
    exact Nat.succ_pos _

/-- In the place of a comment, plain characters close no string that it left open. -/
theorem borders_comment (comment : startsComment C = true) (ends : endsQuote R = true) (space : 0 < gap C')
    (plain : C'.all isPlain = true) : Borders (C ++ R) (C' ++ R) := by
  have first := gap_pos_of_startsComment comment
  obtain ⟨c, u, rfl, -⟩ := exists_of_gap_pos first
  obtain ⟨x, v, rfl, -⟩ := exists_of_gap_pos space
  refine ⟨List.cons_ne_nil _ _, endsQuote_of_gap_pos first R, endsQuote_of_gap_pos space R, ?_, ?_⟩
  · intro mark quotes nothing
    exact closeLength?_plain quotes plain (closeLength?_behind quotes ends nothing)
  · intro mark quotes nothing
    rw [List.all_cons, Bool.and_eq_true] at plain
    exact closeLength?_plain quotes plain.2 (closeLength?_behind quotes ends nothing)

theorem expressionSource_of_depthAt? (arrives : depthAt? term R 0 0 u = some d) (pos : Position) :
    expressionSource term ⟨u ++ R, pos⟩ =
      (u ++ R.take (sourceLength term d 0 R),
        ⟨R.drop (sourceLength term d 0 R), pos.afterText (u ++ R.take (sourceLength term d 0 R))⟩) := by
  unfold expressionSource
  dsimp only
  rw [sourceLength_of_depthAt? arrives, Cursor.skip_eq, List.take_length_add_append, List.drop_length_add_append]

end Lexical

open Lexical

/-- Where the scan for the end of a body comes to a comment and leaves it with as many brackets open, the
comment is white space: any text that begins with white space or a comment and has only plain characters
and no end of the source in it could stand in its place, and the same text behind it would be taken. A
comment of plain characters is left that way if it holds no end of the source or stands within brackets,
and otherwise the body ends in it. -/
theorem level_comment_as_space {term : Terminator} (charwise : term.Charwise) {pre C rest : Text} {d : Nat}
    (comment : startsComment C = true) (line : rest.head?.all (· == '\n') = true)
    (arrives : depthAt? term (C ++ rest) 0 0 pre = some d) (pos : Position) :
    (depthAt? term rest d 0 C = some d → ∀ C' : Text, 0 < gap C' → C'.all isPlain = true →
      (d = 0 → holdsStop term C' = false) →
      ∃ S T, rest = S ++ T ∧
        expressionSource term ⟨pre ++ (C ++ rest), pos⟩ =
          (pre ++ C ++ S, ⟨T, pos.afterText (pre ++ C ++ S)⟩) ∧
        expressionSource term ⟨pre ++ (C' ++ rest), pos⟩ =
          (pre ++ C' ++ S, ⟨T, pos.afterText (pre ++ C' ++ S)⟩)) ∧
    (C.all isPlain = true →
      ((d = 0 → holdsStop term C = false) → depthAt? term rest d 0 C = some d) ∧
      (d = 0 → holdsStop term C = true → ∃ a b, C = a ++ b ∧ b ≠ [] ∧
        expressionSource term ⟨pre ++ (C ++ rest), pos⟩ = (pre ++ a, ⟨b ++ rest, pos.afterText (pre ++ a)⟩))) := by
  have ends : endsQuote rest = true := by
    cases rest with
    | nil => rfl
    | cons c t =>
      rw [beq_iff_eq.mp line]
      rfl
  have apart : rest.head? ≠ some '=' := by
    intro same
    rw [same] at line
    cases line
  refine ⟨fun level C' space plain goes => ?_, fun plain => ⟨fun goes => ?_, fun outer stops => ?_⟩⟩
  · have border := borders_comment comment ends space plain
    have arrives' := depthAt?_replaced charwise border
      (apart_of_gap_pos (gap_pos_of_startsComment comment) rest) (apart_of_gap_pos space rest) arrives
    have level' := depthAt?_plain charwise apart plain goes
    refine ⟨_, _, (List.take_append_drop (sourceLength term d 0 rest) rest).symm, ?_, ?_⟩
    · rw [← List.append_assoc]
      exact expressionSource_of_depthAt? ((depthAt?_append arrives).trans level) pos
    · rw [← List.append_assoc]
      exact expressionSource_of_depthAt? ((depthAt?_append arrives').trans level') pos
  · exact depthAt?_plain charwise apart plain goes
  · subst outer
    obtain ⟨a, b, rfl, nonempty, inside, ended⟩ := exists_stop charwise apart plain stops
    refine ⟨a, b, rfl, nonempty, ?_⟩
    rw [List.append_assoc] at arrives
    have taken := expressionSource_of_depthAt? ((depthAt?_append arrives).trans inside) pos
    rwa [ended, List.take_zero, List.drop_zero, List.append_nil, List.append_assoc, ← List.append_assoc a] at taken

/-- The comment stands in an array and holds the terminator, an exclamation mark and an array of its own. -/
theorem level_comment_as_space_array :
    let term := Terminator.tokens [",", "]"]
    let (pre, C, rest) := ("[a, 'b]' ".toList, "// [c, d]!".toList, "\n , 1n], e".toList)
    startsComment C = true ∧ depthAt? term (C ++ rest) 0 0 pre = some 1 ∧ depthAt? term rest 1 0 C = some 1 ∧
      ∃ S T, rest = S ++ T ∧
        (expressionSource term ⟨pre ++ (C ++ rest), {}⟩).1 = pre ++ C ++ S ∧
        (expressionSource term ⟨pre ++ (" ".toList ++ rest), {}⟩).1 = pre ++ " ".toList ++ S := by
  intro term
  have arrives : depthAt? term ("// [c, d]!".toList ++ "\n , 1n], e".toList) 0 0 "[a, 'b]' ".toList = some 1 := by
    decide
  have level : depthAt? term "\n , 1n], e".toList 1 0 "// [c, d]!".toList = some 1 := by decide
  have charwise : term.Charwise := charwise_tokens (by decide)
  have space := (level_comment_as_space charwise rfl rfl arrives {}).1 level " ".toList (by decide) (by decide)
    (by decide)
  obtain ⟨S, T, split, taken, taken'⟩ := space
  exact ⟨rfl, arrives, level, S, T, split, congrArg Prod.fst taken, congrArg Prod.fst taken'⟩

/-- An exclamation mark in a comment ends the body in the comment. -/
theorem comment_ends_body :
    ¬∀ (term : Terminator) (pre C C' rest : Text) (pos : Position),
      startsComment C = true → startsComment C' = true → '\n' ∉ C → '\n' ∉ C' → rest.head? = some '\n' →
      depthAt? term (C ++ rest) 0 0 pre = some 0 →
      ∃ S T, rest = S ++ T ∧ (expressionSource term ⟨pre ++ (C ++ rest), pos⟩).1 = pre ++ C ++ S ∧
        (expressionSource term ⟨pre ++ (C' ++ rest), pos⟩).1 = pre ++ C' ++ S := by
  intro alike
  obtain ⟨S, T, -, -, taken⟩ := alike Terminator.never "x ".toList "// done".toList "// done!".toList
    "\n + 1n! y".toList {} rfl rfl (by decide) (by decide) rfl rfl
  have ended : (expressionSource Terminator.never ⟨"x // done!\n + 1n! y".toList, {}⟩).1 = "x // done".toList := by
    decide
  have length := congrArg List.length (ended.symm.trans taken)
  rw [List.length_append] at length
  have short : ("x // done".toList).length = 9 := rfl
  have long : ("x ".toList ++ "// done!".toList).length = 10 := rfl
  omega

end Gapscript
