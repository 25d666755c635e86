import Gapscript.Proofs.Reading.Meet

/-!
# Tokens of two readings

Literals, prefix operators, functions and texts that nobody quoted are read the same in the source of a text and
alone, wherever they end in front of the rest. A quoted string that is closed behind the text is not, nor is a
text that stops at an opening brace: neither of them lands in front of the rest (`Behind.Lands`).
-/

namespace Gapscript

open Lexical Cursor

namespace Behind

variable {B : Behind} {u v : Text} {x : Char} {p : Position} {c c' d d' : Cursor} {term term' : Terminator} {n : Nat}
  {P : Cursor → Prop} {α β : Type} {r r' : Except ParseError (α × Cursor)}

/-! ## Literals -/

theorem tallies_quotedString (quiet : B.Quiet u) :
    B.Tallies B.Ahead (quotedString ⟨u ++ B.text, p⟩) (quotedString ⟨u, p⟩) := by
  unfold quotedString
  dsimp only
  constructor
  · intro s d read ahead
    split at read
    · next s n found =>
      cases read
      have ahead := ahead_skip_iff.mp ahead
      obtain ⟨short, alone⟩ := quoted_cut found ahead
      have meets := meets_skip (p := p) quiet ahead
      rw [Nat.min_eq_left short] at meets
      exact ⟨_, by rw [alone], meets⟩
    · cases read
  · intro e read
    split at read
    · cases read
    · next none =>
      have kept := (kept_quotedLength (borders_end B.edged.nonempty B.edged.ends) u).none
        (by rw [quotedLength?, none]; rfl)
      rw [List.append_nil, quotedLength?, Option.map_eq_none_iff] at kept
      exact ⟨_, by rw [kept]⟩

theorem tallies_literal (quiet : B.Quiet (x :: v)) :
    B.Tallies B.Ahead (literal ⟨x :: v ++ B.text, p⟩) (literal ⟨x :: v, p⟩) := by
  have words : firstWord? ⟨x :: v ++ B.text, p⟩ literalWords =
      (firstWord? ⟨x :: v, p⟩ literalWords).map fun r => (r.1, r.2.onto B.text) :=
    firstWord?_onto B.edged (by decide)
  unfold literal
  rw [words]
  cases read : firstWord? ⟨x :: v, p⟩ literalWords with
  | some r =>
    have quiet {a : Value} {d : Cursor} (same : (.ok r : Except ParseError (Value × Cursor)) = .ok (a, d)) :
        B.Quiet d.rest := by
      cases same
      exact quiet.suffix (passes_firstWord? literalWords_ne_nil read).reaches.suffix
    exact tallies_onto rfl quiet
  | none =>
    rw [Option.map_none]
    dsimp only
    rw [List.cons_append, List.head?_cons, List.head?_cons]
    split
    · exact (tallies_quotedString quiet).map fun s => Value.string (String.ofList s)
    · exact tallies_onto (number_onto B.edged) fun read => quiet.suffix (passes_number read).reaches.suffix

theorem tallies_objectKey (quiet : B.Quiet (x :: v)) :
    B.Tallies B.Ahead (objectKey ⟨x :: v ++ B.text, p⟩) (objectKey ⟨x :: v, p⟩) := by
  unfold objectKey
  rw [List.cons_append, List.head?_cons, List.head?_cons]
  split
  · exact (tallies_quotedString quiet).map String.ofList
  · exact tallies_identifier (charwise_tokens (by decide)) quiet

/-! ## Prefix operators -/

theorem le_runsFrom (runs : List UnaryRun) (k : Nat) (t : Text) : min k t.length ≤ (runsFrom runs k t).2 := by
  induction k generalizing t with
  | zero => exact (Nat.zero_min _).symm ▸ Nat.zero_le _
  | succ k ih =>
    cases t with
    | nil => exact Nat.min_le_right _ _
    | cons c t =>
      rw [List.length_cons, Nat.add_min_add_right, runsFrom]
      exact Nat.succ_le_succ (ih t)

/-- The operators at the start of a text end in it, and are the same when it stands alone, or they and the
white space behind them take all of it. -/
theorem runsFrom_cut (quiet : B.Quiet v) (runs : List UnaryRun) {k : Nat}
    (apart : k < v.length ∨ v.length + B.space.length ≤ k) :
    v.length + B.space.length ≤ (runsFrom runs k (v ++ B.text)).2 ∨
      (runsFrom runs k (v ++ B.text)).2 < v.length ∧ runsFrom runs k v = runsFrom runs k (v ++ B.text) := by
  induction v generalizing runs k with
  | nil =>
    have long := le_runsFrom runs k B.text
    rw [length_text] at long
    rw [List.nil_append, List.length_nil] at *
    exact .inl (by omega)
  | cons c v ih =>
    have later := quiet.suffix (List.suffix_cons c v)
    rw [List.cons_append, List.length_cons] at *
    cases k with
    | succ k =>
      rw [runsFrom, runsFrom]
      dsimp only
      rcases ih later runs (k := k) (by omega) with long | ⟨short, same⟩
      · exact .inl (by omega)
      · exact .inr ⟨by omega, by rw [same]⟩
    | zero =>
      rw [runsFrom, runsFrom]
      cases unaryOfChar? c with
      | none => exact .inr ⟨Nat.succ_pos _, rfl⟩
      | some op =>
        have cut := gap_cut later
        have apart := B.gap_apart v
        dsimp only
        rcases ih later (UnaryRun.extend op (gap (v ++ B.text)) runs) apart with long | ⟨short, same⟩
        · exact .inl (by omega)
        · have width : gap v = gap (v ++ B.text) := by
            have long := le_runsFrom (UnaryRun.extend op (gap (v ++ B.text)) runs) (gap (v ++ B.text)) (v ++ B.text)
            rw [List.length_append, length_text] at long
            omega
          exact .inr ⟨by omega, by rw [width, same]⟩

/-- The prefix operators under the cursor are the same in both readings and end at a character of the text, or
the first reading comes to the rest. -/
theorem unaryRuns_cut (quiet : B.Quiet (x :: v)) (p : Position) :
    (unaryRuns ⟨x :: v ++ B.text, p⟩).2.rest.length ≤ B.rest.length ∨
      ∃ runs y w q, unaryRuns ⟨x :: v ++ B.text, p⟩ = (runs, ⟨y :: w ++ B.text, q⟩) ∧
        unaryRuns ⟨x :: v, p⟩ = (runs, ⟨y :: w, q⟩) ∧ B.Quiet (y :: w) := by
  unfold unaryRuns
  dsimp only
  rcases runsFrom_cut quiet [] (k := 0) (.inl (Nat.succ_pos _)) with long | ⟨short, same⟩
  · refine .inl ?_
    rw [rest_skip, List.length_drop, List.length_append, length_text]
    omega
  · rw [same]
    generalize (runsFrom [] 0 (x :: v ++ B.text)).2 = n at short ⊢
    obtain ⟨y, w, left⟩ := List.exists_cons_of_ne_nil
      (show (x :: v).drop n ≠ [] by rw [← List.length_pos_iff, List.length_drop]; omega)
    have here : Cursor.skip n ⟨x :: v, p⟩ = ⟨y :: w, p.afterText ((x :: v).take n)⟩ := by
      rw [skip_eq]
      exact congrArg (Cursor.mk · _) left
    have there : Cursor.skip n ⟨x :: v ++ B.text, p⟩ = (Cursor.skip n ⟨x :: v, p⟩).onto B.text :=
      skip_onto (c := ⟨x :: v, p⟩) short.le
    refine .inr ⟨_, y, w, _, congrArg (Prod.mk _) (there.trans (congrArg (onto B.text) here)),
      congrArg (Prod.mk _) here, quiet.suffix ?_⟩
    rw [← left]
    exact List.drop_suffix n _

theorem unaryRuns_nil (none : unaryOfChar? x = none) (t : Text) (p : Position) :
    unaryRuns ⟨x :: t, p⟩ = ([], ⟨x :: t, p⟩) := by
  unfold unaryRuns
  rw [runsFrom, none]
  rfl

/-! ## Texts that nobody quoted -/

/-- A text that nobody quoted is read, once it is known how far it reaches. -/
def implied (c d : Cursor) (t : Text) : Except ParseError (Base × Cursor) :=
  match Text.trimLine t with
  | [] => .error (noMatch c "empty implicit string")
  | s => .ok (.literal (.string (String.ofList s)) true, d)

theorem implied_eq_ok_iff {c d e : Cursor} {t : Text} {b : Base} : implied c d t = .ok (b, e) ↔
    Text.trimLine t ≠ [] ∧ b = .literal (.string (String.ofList (Text.trimLine t))) true ∧ e = d := by
  unfold implied
  cases Text.trimLine t with
  | nil => simp
  | cons y u => simp [eq_comm]

theorem implicitString_cut (fits : term.Fits term') (quiet : B.Quiet (x :: v)) {b : Base}
    (read : implicitString term ⟨x :: v ++ B.text, p⟩ = .ok (b, d)) (lands : B.Lands d) :
    ∃ d', implicitString term' ⟨x :: v, p⟩ = .ok (b, d') ∧ B.Meets d d' := by
  unfold implicitString chunk at read ⊢
  have starts : startsWith ⟨x :: v ++ B.text, p⟩ "\x7d" = startsWith ⟨x :: v, p⟩ "\x7d" :=
    startsWith_onto B.edged (by decide)
  rw [starts] at read
  split at read
  · cases read
  · next other =>
    rw [if_neg other]
    cases source : unescapeUntil (Terminator.statement.or term) (x :: v ++ B.text) with
    | mk s n =>
      dsimp only at read ⊢
      rw [source] at read
      cases n with
      | zero => cases read
      | succ n =>
        change implied ⟨x :: v ++ B.text, p⟩ _ s = _ at read
        obtain ⟨some, rfl, rfl⟩ := implied_eq_ok_iff.1 read
        have ahead := ahead_skip_iff.mp lands.ahead
        obtain ⟨s', alone, same⟩ := unescape_cut fits quiet.escape source ahead (free_drop lands)
        have meets := meets_skip (p := p) quiet ahead
        rw [List.length_cons, Nat.add_min_add_right] at alone meets
        refine ⟨_, ?_, meets⟩
        rw [alone]
        change implied ⟨x :: v, p⟩ _ s' = _
        rw [same] at some ⊢
        exact implied_eq_ok_iff.2 ⟨some, rfl, rfl⟩

/-! ## Functions -/

/-- Both readings end alike, or the first one comes to the rest and the other one to the end of the text. -/
inductive Pairs (B : Behind) {α : Type} : Except ParseError (α × Cursor) → Except ParseError (α × Cursor) → Prop
  | together {a : α} {d d' : Cursor} (meets : B.Meets d d') : Pairs B (.ok (a, d)) (.ok (a, d'))
  | apart {r r' : Except ParseError (α × Cursor)} (past : ∀ {a d}, r = .ok (a, d) → d.rest.length ≤ B.rest.length)
    (ended : ∀ {a d'}, r' = .ok (a, d') → d'.rest = []) : Pairs B r r'

theorem Pairs.map (h : B.Pairs r r') (f : α → β) :
    B.Pairs (r.map fun (a, d) => (f a, d)) (r'.map fun (a, d) => (f a, d)) := by
  cases h with
  | together meets => exact .together meets
  | apart past ended =>
    constructor
    · intro b d same
      cases read : r with
      | error e =>
        rw [read] at same
        cases same
      | ok a =>
        rw [read] at same
        cases same
        exact past read
    · intro b d same
      cases read : r' with
      | error e =>
        rw [read] at same
        cases same
      | ok a =>
        rw [read] at same
        cases same
        exact ended read

theorem paramsFrom_skipGap (fuel : Nat) (c : Cursor) :
    paramsFrom (fuel + 1) (skipGap c) = paramsFrom (fuel + 1) c := by
  rw [paramsFrom, paramsFrom, skipGap_skipGap]

/-- The parameters from the first one on, which has been read already. -/
def paramsOnward (fuel : Nat) (name : String) (c : Cursor) : Except ParseError (List String × Cursor) :=
  match c.consume? "," with
  | none => .ok ([name], c)
  | some d => (paramsFrom fuel d).map fun (names, d) => (name :: names, d)

theorem pairs_paramsFrom (fuel : Nat) (meets : B.Meets c c') :
    B.Pairs (paramsFrom fuel c) (paramsFrom fuel c') := by
  induction fuel generalizing c c' with
  | zero => exact .together meets
  | succ fuel ih =>
    have stands := meets.skipGap
    generalize there : skipGap c = s at stands
    generalize here : skipGap c' = s' at stands
    cases stands with
    | @beyond s p past =>
      constructor
      · intro names d read
        rw [← paramsFrom_skipGap, there] at read
        exact Nat.le_trans (reaches_paramsFrom read).length_le past
      · intro names d' read
        rw [← paramsFrom_skipGap, here] at read
        cases read
    | @inside x v p quiet solid =>
      have starts : startsWith ⟨x :: v ++ B.text, p⟩ "=>" = startsWith ⟨x :: v, p⟩ "=>" :=
        startsWith_onto B.edged (by decide)
      rw [paramsFrom, paramsFrom, there, here]
      dsimp only
      rw [starts, bindingName_cut]
      split
      · exact .together (.inside quiet)
      · cases named : bindingName ⟨x :: v, p⟩ with
        | error e =>
          constructor
          · rintro names d ⟨⟩
          · rintro names d ⟨⟩
        | ok r =>
          obtain ⟨name, e⟩ := r
          have behind := quiet.suffix (passes_bindingName named).reaches.suffix
          have stands := (meets_onto behind).skipGap
          change B.Pairs (paramsOnward fuel name (skipGap (e.onto B.text))) (paramsOnward fuel name (skipGap e))
          unfold paramsOnward
          generalize skipGap (e.onto B.text) = s at stands
          generalize skipGap e = s' at stands
          cases stands with
          | @beyond s p past =>
            constructor
            · intro names d read
              split at read
              · cases read
                exact past
              · next f comma =>
                cases more : paramsFrom fuel f with
                | error e =>
                  rw [more] at read
                  cases read
                | ok r =>
                  rw [more] at read
                  cases read
                  exact Nat.le_trans ((reaches_consume? comma).trans (reaches_paramsFrom more)).length_le past
            · rintro names d' ⟨⟩
              rfl
          | @inside x v p quiet solid =>
            rw [consume?_cut (by decide)]
            cases comma : consume? ⟨x :: v, p⟩ "," with
            | none => exact .together (.inside quiet)
            | some f =>
              exact (ih (meets_onto (quiet.suffix (reaches_consume? comma).suffix))).map (name :: ·)

/-- A source that begins with something else than white space. -/
theorem trimLine_ne_nil (solid : isLayout x = false) (t : Text) : Text.trimLine (x :: t) ≠ [] := by
  intro none
  obtain ⟨w, whole, blank⟩ := Text.exists_of_dropEnd Text.isLineSpace (x :: t)
  rw [show Text.dropEnd Text.isLineSpace (x :: t) = [] from none, List.nil_append] at whole
  have layout := isLayout_of_isLineSpace (blank x (by rw [← whole]; exact List.mem_cons_self))
  rw [solid] at layout
  cases layout

/-- Blocks do not end in white space. -/
theorem blockLength_inside {depth h : Nat} (found : blockLength depth h (u ++ B.text) = some n)
    (ahead : n < u.length + B.space.length) : n < u.length := by
  refine Nat.lt_of_not_le fun long => ?_
  obtain ⟨S, T, whole, rfl⟩ := split_of_blockLength found
  have left : (u ++ B.text).drop S.length = B.space.drop (S.length - u.length) ++ B.rest := by
    rw [List.drop_append, List.drop_of_length_le long, List.nil_append, drop_text (by omega)]
  obtain ⟨x, w, space⟩ : ∃ x w, B.space.drop (S.length - u.length) = x :: w :=
    List.exists_cons_of_ne_nil (by rw [← List.length_pos_iff, List.length_drop]; omega)
  have blank := B.blank x (List.mem_of_mem_drop (by rw [space]; exact List.mem_cons_self))
  rw [whole, List.drop_left, space] at left
  cases left
  cases blank

theorem tallies_block (quiet : B.Quiet ('\x7b' :: v)) :
    B.Tallies B.Lands ((block ⟨'\x7b' :: v ++ B.text, p⟩).map fun (body, d) => (Body.script body.rest body.pos true, d))
      ((block ⟨'\x7b' :: v, p⟩).map fun (body, d) => (Body.script body.rest body.pos true, d)) := by
  rw [List.cons_append, block_eq, block_eq]
  cases found : blockLength 1 0 (v ++ B.text) with
  | some n =>
    refine ⟨fun {body d} read lands => ?_, nofun⟩
    cases read
    have ahead := ahead_skip_iff.mp lands.ahead
    have short := blockLength_inside found (by omega)
    have meets := meets_skip (p := p.after '\x7b') (quiet.suffix (List.suffix_cons _ v)) ahead
    rw [Nat.min_eq_left short] at meets
    rw [blockLength_cut B.edged found short, List.take_append_of_le_length short.le]
    exact ⟨_, rfl, meets⟩
  | none =>
    refine ⟨nofun, fun _ => ?_⟩
    cases alone : blockLength 1 0 v with
    | some n =>
      rw [quiet.braces v List.suffix_rfl n alone] at found
      cases found
    | none => exact ⟨_, rfl⟩

/-- The source of an expression that ends in front of the rest. -/
theorem expressionSource_cut (fits : term.Fits term') (quiet : B.Quiet u)
    (lands : B.Lands (expressionSource term ⟨u ++ B.text, p⟩).2) :
    Text.trimLine (expressionSource term ⟨u ++ B.text, p⟩).1 = Text.trimLine (expressionSource term' ⟨u, p⟩).1 ∧
      B.Meets (expressionSource term ⟨u ++ B.text, p⟩).2 (expressionSource term' ⟨u, p⟩).2 := by
  have ahead := ahead_skip_iff.mp lands.ahead
  have cut := sourceLength_cut fits quiet.escape ahead (free_drop lands)
  unfold expressionSource
  dsimp only at ahead ⊢
  rw [cut]
  generalize sourceLength term 0 0 (u ++ B.text) = n at ahead
  refine ⟨?_, meets_skip quiet ahead⟩
  have blank : ∀ x ∈ B.text.take (n - u.length), Text.isLineSpace x = true := by
    rw [Behind.text, List.take_append_of_le_length (by omega)]
    exact fun x inside => B.blank x (List.mem_of_mem_take inside)
  rw [List.take_append, Text.trimLine, Text.dropEnd_append blank]
  rcases Nat.le_total n u.length with short | long
  · rw [Nat.min_eq_left short]
    rfl
  · rw [Nat.min_eq_right long, List.take_of_length_le long, List.take_length]
    rfl

theorem tallies_functionBody (fits : term.Fits term') (meets : B.Meets c c') :
    B.Tallies B.Lands (functionBody term c) (functionBody term' c') := by
  unfold functionBody
  have stands := meets.skipGap
  generalize skipGap c = s at stands
  generalize skipGap c' = s' at stands
  dsimp only
  cases stands with
  | @beyond s p past =>
    refine ⟨fun {body d} read lands => ?_, fun _ => ⟨_, rfl⟩⟩
    have ahead : B.rest.length ≤ d.rest.length := lands.ahead
    have shorter : d.rest.length < s.rest.length := by
      split at read
      · cases found : block s with
        | error e =>
          rw [found] at read
          cases read
        | ok r =>
          rw [found] at read
          cases read
          exact (passes_block found).length_lt
      · split at read
        · cases read
        · next text source =>
          cases read
          refine (passes_skip (Nat.pos_of_ne_zero fun none => source ?_) fun none => source ?_).length_lt
          · rw [expressionSource, none]
            rfl
          · rw [expressionSource, none]
            rfl
    omega
  | @inside x v p quiet solid =>
    by_cases brace : x = '\x7b'
    · subst brace
      exact tallies_block quiet
    · have other (t : Text) : ¬startsWith ⟨x :: t, p⟩ "\x7b" = true := by
        intro starts
        obtain ⟨u, same⟩ := List.isPrefixOf_iff_prefix.mp starts
        exact brace (List.cons.inj same).1.symm
      rw [if_neg (other v), List.cons_append, if_neg (other _), ← List.cons_append]
      constructor
      · intro body d read lands
        split at read
        · cases read
        · next text source =>
          cases read
          obtain ⟨same, meets⟩ := expressionSource_cut fits quiet lands
          rw [← same]
          refine ⟨_, ?_, meets⟩
          split
          · next nothing => exact absurd nothing source
          · rfl
      · intro e read
        split at read
        · next none =>
          -- The source is empty, since it would begin with the character under the cursor.
          have width : sourceLength term 0 0 (x :: v ++ B.text) = 0 := by
            rw [expressionSource] at none
            cases width : sourceLength term 0 0 (x :: v ++ B.text) with
            | zero => rfl
            | succ n =>
              rw [width] at none
              exact absurd none (trimLine_ne_nil solid _)
          have cut := sourceLength_cut fits quiet.escape (width ▸ Nat.zero_le _) fun t left => by
            rw [width] at left
            exact brace (List.cons.inj left).1
          rw [width, Nat.zero_min] at cut
          rw [expressionSource, cut]
          exact ⟨_, rfl⟩
        · cases read

/-- The arrow of a function and the body behind it. -/
def arrow (term : Terminator) (f : Body → Function) (c : Cursor) : Except ParseError (Function × Cursor) :=
  match (skipGap c).consume? "=>" with
  | none => .error (noMatch (skipGap c) "expected '=>'")
  | some d => (functionBody term d).map fun (body, d) => (f body, d)

theorem functionLiteral_eq (term : Terminator) (c : Cursor) : functionLiteral term c =
    (params c).bind fun r => arrow term (fun body => { params := r.1, body := body, line := c.pos.line }) r.2 := by
  unfold functionLiteral arrow
  cases params c with
  | error e => rfl
  | ok r =>
    dsimp only [bind, Except.bind]
    cases (skipGap r.2).consume? "=>" with
    | none => rfl
    | some d =>
      dsimp only
      cases functionBody term d with
      | error e => rfl
      | ok r => rfl

theorem passes_arrow {f : Body → Function} {fn : Function} (read : arrow term f c = .ok (fn, d)) :
    (skipGap c).Passes d := by
  unfold arrow at read
  split at read
  · cases read
  · next e opened =>
    cases body : functionBody term e with
    | error e =>
      rw [body] at read
      cases read
    | ok r =>
      rw [body] at read
      cases read
      exact (passes_consume? (by decide) opened).then (reaches_functionBody body)

/-- No function is read from the rest on. -/
theorem not_lands_arrow {f : Body → Function} {fn : Function} (read : arrow term f c = .ok (fn, d))
    (past : (skipGap c).rest.length ≤ B.rest.length) : ¬B.Lands d := by
  intro lands
  have shorter := (passes_arrow read).length_lt
  have ahead : B.rest.length ≤ d.rest.length := lands.ahead
  omega

theorem tallies_arrow (fits : term.Fits term') (f : Body → Function) (meets : B.Meets c c') :
    B.Tallies B.Lands (arrow term f c) (arrow term' f c') := by
  have stands := meets.skipGap
  generalize there : skipGap c = s at stands
  generalize here : skipGap c' = s' at stands
  cases stands with
  | @beyond s p past =>
    refine ⟨fun read lands => absurd lands (not_lands_arrow read (there ▸ past)), fun _ => ?_⟩
    rw [arrow, here]
    exact ⟨_, rfl⟩
  | @inside x v p quiet solid =>
    unfold arrow
    rw [there, here, consume?_cut (by decide)]
    cases opened : consume? ⟨x :: v, p⟩ "=>" with
    | none => exact ⟨nofun, fun _ => ⟨_, rfl⟩⟩
    | some d =>
      exact (tallies_functionBody fits (meets_onto (quiet.suffix (reaches_consume? opened).suffix))).map f

theorem tallies_functionLiteral (fits : term.Fits term') (quiet : B.Quiet u) :
    B.Tallies B.Lands (functionLiteral term ⟨u ++ B.text, p⟩) (functionLiteral term' ⟨u, p⟩) := by
  have pairs := pairs_paramsFrom (c := ⟨u ++ B.text, p⟩) ((u ++ B.text).length + 1) (.inside quiet)
  have longer : paramsFrom ((u ++ B.text).length + 1) ⟨u, p⟩ = params ⟨u, p⟩ :=
    paramsFrom_eq (by rw [List.length_append]; dsimp only; omega) (Nat.lt_succ_self _)
  rw [longer] at pairs
  change B.Pairs (params ⟨u ++ B.text, p⟩) _ at pairs
  rw [functionLiteral_eq, functionLiteral_eq]
  generalize params ⟨u ++ B.text, p⟩ = r at pairs
  generalize params ⟨u, p⟩ = r' at pairs
  cases pairs with
  | @together names d d' meets =>
    exact tallies_arrow fits (fun body => { params := names, body := body, line := p.line }) meets
  | apart past ended =>
    constructor
    · intro fn d read lands
      cases r with
      | error e => cases read
      | ok r =>
        have past := Nat.le_trans (reaches_skipGap r.2).length_le (past rfl)
        change arrow term (fun body => { params := r.1, body := body, line := p.line }) r.2 = .ok (fn, d) at read
        exact absurd lands (not_lands_arrow read past)
    · intro _ _
      cases r' with
      | error e => exact ⟨e, rfl⟩
      | ok r' =>
        obtain ⟨names, t, q⟩ := r'
        cases ended rfl
        exact ⟨_, rfl⟩

end Behind

end Gapscript
