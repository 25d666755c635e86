import Gapscript.Proofs.Reading.Expression
import Gapscript.Run.Watch

/-!
# Reading statements

Each of the nine forms of a statement passes some text where it matches, and reports a mismatch or
too few arguments where it does not. So the statement that is read is shorter than the text it was
read from (`passes_statement`), and a text that no form accepts is settled (`settled_statement`). What
a statement holds comes from its text and from the names in force, and names that mean the same by
every word of the text are read the same (`twins_form`).
-/

namespace Gapscript

open Lexical Cursor Reading

/-! ## Declarations -/

theorem passes_assignSign? {c d : Cursor} (h : assignSign? c = some d) : c.Passes d := by
  unfold assignSign? at h
  split at h
  · cases h
  · cases h
  · next hc =>
    cases h
    exact passes_next (by rw [hc]; exact List.cons_ne_nil _ _)
  · cases h

theorem passes_qualifier {c d : Cursor} {isConst : Bool} (h : qualifier c = .ok (isConst, d)) :
    c.Passes d := by
  unfold qualifier at h
  split at h
  · cases h
  · next hword =>
    have word : c.Passes _ := passes_firstWord? (by decide) hword
    dsimp only [measureGap] at h
    split at h
    · cases h
    · next hgap =>
      cases hgap
      cases h
      exact word.skipGap

theorem passes_lifeTimeParse {c d : Cursor} {life : LifeTime} (h : LifeTime.parse c = .ok (life, d)) :
    c.Passes d := by
  unfold LifeTime.parse at h
  dsimp only at h
  split at h
  · next hc =>
    split at h
    · cases h
    · split at h
      · cases h
        exact passes_skip (Nat.succ_pos _) (by rw [hc]; exact List.cons_ne_nil _ _)
      · cases h
  · cases h

theorem reaches_lifeTime {c d : Cursor} {life : LifeTime} (h : lifeTime c = .ok (life, d)) :
    c.Reaches d := by
  unfold lifeTime at h
  split at h
  · cases hl : LifeTime.parse c with
    | error e => rw [hl] at h; cases h
    | ok r =>
      rw [hl] at h
      cases h
      exact (passes_lifeTimeParse hl).skipGap.reaches
  · cases h
    exact .refl c

theorem passes_declarationHeader {c d : Cursor} {header : Header}
    (h : declarationHeader c = .ok (header, d)) : c.Passes d ∧ c.Mentions header.name := by
  unfold declarationHeader at h
  cases h₁ : qualifier c with
  | error e => rw [h₁] at h; cases h
  | ok r₁ =>
  cases h₂ : qualifier r₁.2 with
  | error e => simp only [h₁, h₂, bind, Except.bind] at h; cases h
  | ok r₂ =>
  cases h₃ : bindingName r₂.2 with
  | error e => simp only [h₁, h₂, h₃, bind, Except.bind] at h; cases h
  | ok r₃ =>
  cases h₄ : lifeTime (skipGap r₃.2) with
  | error e => simp only [h₁, h₂, h₃, h₄, bind, Except.bind] at h; cases h
  | ok r₄ =>
    simp only [h₁, h₂, h₃, h₄, bind, Except.bind] at h
    have words : c.Passes r₂.2 := (passes_qualifier h₁).then (passes_qualifier h₂).reaches
    have named : c.Passes (skipGap r₃.2) := (words.then (passes_bindingName h₃).reaches).skipGap
    split at h
    · cases h
    · next hsign =>
      cases h
      exact ⟨((named.then (reaches_lifeTime h₄)).then (passes_assignSign? hsign).reaches).skipGap,
        words.reaches.includes.mentions (mentions_bindingName h₃)⟩

/-! ## Sources of statements -/

/-- The guard was read from the source, and so was its text. -/
def Guard.Sourced (S : Source) (g : Guard) : Prop := g.tree.Sourced S ∧ S.Occurs (String.ofList g.text)

/-- The body is a piece of the source, and the guard comes from it. -/
def Branch.Sourced (S : Source) (b : Branch) : Prop := S.Piece b.body ∧ ∀ g, b.guard = some g → g.Sourced S

/-- Everything in the statement comes from the source. -/
def Statement.Sourced (S : Source) : Statement → Prop
  | .declaration h value _ => S.Occurs h.name ∧ value.Sourced S
  | .assignment a _ =>
    S.Occurs a.name ∧ Accessor.AllSourced S a.accessors ∧ ∀ e, a.value = some e → e.Sourced S
  | .block body => S.Piece body
  | .conditional bs => ∀ b ∈ bs, b.Sourced S
  | .watch bs deps => (∀ b ∈ bs, b.Sourced S) ∧ ∀ name ∈ deps, S.Occurs name
  | .function fn => S.Occurs fn.name ∧ S.Code fn
  | .giveBack value _ => ∀ e, value = some e → e.Sourced S
  | .call value _ => value.Sourced S
  | .expression value _ => value.Sourced S

/-! ## Branches -/

section Branches

variable {S : Source} {names names' : Names} {word : String}

theorem twins_guarded (accord : names.Accord S names') (hw : word.toList ≠ []) {c : Cursor}
    (covers : S.Covers c) :
    Twins S.Occurs (guarded names word c) (guarded names' word c)
      fun r => c.Passes r.2 ∧ r.1.Sourced S := by
  unfold guarded
  cases hword : keyword? word c with
  | none => exact twins_fail _
  | some d =>
    have start : c.Passes (skipGap d) := (passes_keyword? hw hword).skipGap
    refine (twins_expression accord _ (covers.reaches start.reaches)).bind ?_
    rintro ⟨tree, e⟩ ⟨he, sourced⟩
    have guard : c.Passes (skipGap e) := (start.then he.reaches).skipGap
    refine (twins_ofExcept (Q := fun r => (skipGap e).Passes r.2 ∧ (skipGap e).Includes r.1)
      fun r hr => ⟨passes_block hr, includes_block hr⟩).bind ?_
    rintro ⟨body, f⟩ ⟨hf, piece⟩
    refine twins_pure ⟨guard.then hf.reaches, covers.piece (guard.reaches.includes.trans piece), ?_⟩
    rintro g ⟨⟩
    refine ⟨sourced, covers.occurs (start.reaches.includes.mentions ?_)⟩
    rw [Mentions, String.toList_ofList]
    exact (Text.trim_infix _).trans (textUntil_isPrefix _ _).isInfix

theorem twins_elseBranches (accord : names.Accord S names') (hw : word.toList ≠ []) {fuel : Nat}
    {c : Cursor} (covers : S.Covers c) (hfuel : c.rest.length < fuel) :
    Twins S.Occurs (elseBranches names word fuel c) (elseBranches names' word fuel c)
      fun r => c.Reaches r.2 ∧ ∀ b ∈ r.1, b.Sourced S := by
  induction fuel generalizing c with
  | zero => omega
  | succ fuel ih =>
    have nothing : Twins S.Occurs (pure ([], c)) (pure ([], c))
        fun r : List Branch × Cursor => c.Reaches r.2 ∧ ∀ b ∈ r.1, b.Sourced S :=
      twins_pure ⟨.refl c, fun _ hb => nomatch hb⟩
    rw [elseBranches, elseBranches]
    cases helse : keyword? "else" (skipGap c) with
    | none => exact nothing
    | some d =>
      have start : c.Passes (skipGap d) :=
        ((reaches_skipGap c).then (passes_keyword? (by decide) helse)).skipGap
      refine (twins_guarded accord hw (covers.reaches start.reaches)).attempt.bind fun r hr => ?_
      cases r with
      | some r =>
        have next : c.Passes r.2 := start.then (hr r rfl).1.reaches
        have shorter := next.length_lt
        refine (ih (c := r.2) (covers.reaches next.reaches) (by omega)).bind ?_
        rintro ⟨bs, e⟩ ⟨he, sourced⟩
        exact twins_pure ⟨(next.then he).reaches, List.forall_mem_cons.2 ⟨(hr r rfl).2, sourced⟩⟩
      | none =>
        dsimp only
        cases hblock : block (skipGap d) with
        | error e => exact nothing
        | ok r =>
          refine twins_pure ⟨(start.then (passes_block hblock).reaches).reaches, ?_⟩
          refine List.forall_mem_singleton.2 ⟨?_, fun g hg => nomatch hg⟩
          exact covers.piece (start.reaches.includes.trans (includes_block hblock))

theorem twins_branches (accord : names.Accord S names') (hw : word.toList ≠ []) {c : Cursor}
    (covers : S.Covers c) :
    Twins S.Occurs (branches names word c) (branches names' word c)
      fun r => c.Passes r.2 ∧ ∀ b ∈ r.1, b.Sourced S := by
  refine (twins_guarded accord hw covers).bind ?_
  rintro ⟨b, d⟩ ⟨hb, sourced⟩
  refine (twins_elseBranches accord hw (c := d) (covers.reaches hb.reaches) (Nat.lt_succ_self _)).bind ?_
  rintro ⟨bs, e⟩ ⟨he, others⟩
  exact twins_pure ⟨hb.then he, List.forall_mem_cons.2 ⟨sourced, others⟩⟩

/-- Guards are read anew the same way, from texts that the source covers. -/
theorem twins_readGuards (accord : names.Accord S names') {bs : List Branch}
    (pieces : ∀ b ∈ bs, S.Piece b.body)
    (covers : ∀ b ∈ bs, ∀ g, b.guard = some g → S.Covers ⟨g.text, g.pos⟩) :
    Twins S.Occurs (readGuards names bs) (readGuards names' bs) fun r => ∀ b ∈ r, b.Sourced S := by
  induction bs with
  | nil => exact twins_pure fun _ hb => nomatch hb
  | cons b bs ih =>
    obtain ⟨piece, pieces⟩ := List.forall_mem_cons.1 pieces
    obtain ⟨here, later⟩ := List.forall_mem_cons.1 covers
    rw [readGuards, readGuards]
    cases hg : b.guard with
    | none =>
      refine (ih pieces later).bind fun rest hrest => twins_pure (List.forall_mem_cons.2 ⟨⟨piece, ?_⟩, hrest⟩)
      intro g hg'
      rw [hg] at hg'
      cases hg'
    | some g =>
      refine (twins_fullExpression accord (here g hg)).bind fun tree htree => ?_
      refine (ih pieces later).bind fun rest hrest => twins_pure (List.forall_mem_cons.2 ⟨⟨piece, ?_⟩, hrest⟩)
      rintro g' ⟨⟩
      exact ⟨htree, (here g hg).occurs (mentions_of_isPrefix List.prefix_rfl)⟩

end Branches

theorem gives_readGuards (names : Names) (bs : List Branch) : (readGuards names bs).Gives fun _ => True :=
  (twins_readGuards names.accord_any (fun _ _ => trivial) fun _ _ _ _ => Source.covers_any _).gives.mono
    fun _ _ => trivial

/-! ## The forms -/

section Forms

variable {S : Source} {ctx ctx' : StatementContext}

/-- Two places to read statements in whose names are in accord over a source. -/
structure StatementContext.Accord (S : Source) (ctx ctx' : StatementContext) : Prop where
  names : ctx.names.Accord S ctx'.names
  endCloses : ctx.endCloses = ctx'.endCloses

theorem passes_assignMode {c d : Cursor} {mode : AssignMode} (h : assignMode c = .ok (mode, d)) :
    c.Passes d := by
  unfold assignMode at h
  split at h
  · next hsign =>
    cases h
    exact passes_assignSign? hsign
  · split at h
    · next sign m hfind =>
      cases h
      have long : ∀ s ∈ assignSigns, s.1.toList ≠ [] ∧ 0 < s.1.length := by decide
      have hs := long _ (List.mem_of_find?_eq_some hfind)
      have starts : c.startsWith sign = true := by simpa using List.find?_some hfind
      exact passes_skip hs.2 (rest_ne_nil_of_startsWith hs.1 starts)
    · cases h

theorem twins_finish (same : ctx.endCloses = ctx'.endCloses) (c : Cursor) :
    Twins S.Occurs (ctx.finish c) (ctx'.finish c) fun r => c.Reaches r.2 := by
  unfold StatementContext.finish
  rw [← same]
  refine twins_ite (fun _ => twins_pure (reaches_skipGap c)) fun _ => ?_
  exact twins_ofExcept fun r hr => ((reaches_skipGap c).then (passes_statementEnd hr)).reaches

/-- An expression and the end of the statement. -/
theorem twins_value_finish (accord : ctx.Accord S ctx') (stmt : Expr → Bool → Statement)
    (sourced : ∀ e debug, e.Sourced S → (stmt e debug).Sourced S) {c d : Cursor} (covers : S.Covers c)
    (hd : c.Reaches d) :
    Twins S.Occurs
      (do
        let (value, e) ← expression ctx.names Terminator.never d
        let (debug, e) ← ctx.finish e
        pure (stmt value debug, e))
      (do
        let (value, e) ← expression ctx'.names Terminator.never d
        let (debug, e) ← ctx'.finish e
        pure (stmt value debug, e))
      fun r => c.Passes r.2 ∧ r.1.Sourced S := by
  refine (twins_expression accord.names Terminator.never (covers.reaches hd)).bind ?_
  rintro ⟨value, e⟩ ⟨he, hvalue⟩
  refine (twins_finish accord.endCloses e).bind ?_
  rintro ⟨debug, e'⟩ he'
  exact twins_pure ⟨hd.then (he.then he'), sourced value debug hvalue⟩

theorem twins_declarationForm (accord : ctx.Accord S ctx') {c : Cursor} (covers : S.Covers c) :
    Twins S.Occurs (declarationForm ctx c) (declarationForm ctx' c)
      fun r => c.Passes r.2 ∧ r.1.Sourced S := by
  refine (twins_ofExcept (Q := fun r => c.Passes r.2 ∧ c.Mentions r.1.name)
    fun r hr => passes_declarationHeader hr).bind ?_
  rintro ⟨header, d⟩ ⟨hd, named⟩
  exact twins_value_finish accord (.declaration header) (fun e debug he => ⟨covers.occurs named, he⟩)
    covers hd.reaches

theorem twins_assignmentForm (accord : ctx.Accord S ctx') {c : Cursor} (covers : S.Covers c) :
    Twins S.Occurs (assignmentForm ctx c) (assignmentForm ctx' c)
      fun r => c.Passes r.2 ∧ r.1.Sourced S := by
  refine (twins_ofExcept (Q := fun r => c.Passes r.2 ∧ c.Mentions r.1)
    fun r hr => ⟨passes_bindingName hr, mentions_bindingName hr⟩).bind ?_
  rintro ⟨name, d⟩ ⟨hd, named⟩
  refine (twins_readAccessors accord.names (covers.reaches hd.reaches)).bind ?_
  rintro ⟨accs, e⟩ ⟨he, haccs⟩
  refine (twins_ofExcept (Q := fun r => (skipGap e).Passes r.2) fun r hr => passes_assignMode hr).bind ?_
  rintro ⟨mode, f⟩ hf
  have signed : c.Passes f := (hd.then he).skipGap.then hf.reaches
  cases mode with
  | step op =>
    refine (twins_finish accord.endCloses f).bind ?_
    rintro ⟨debug, g⟩ hg
    exact twins_pure ⟨signed.then hg, covers.occurs named, haccs, fun _ h => nomatch h⟩
  | plain | compound op =>
    refine twins_value_finish accord (fun value => .assignment ⟨name, accs, _, some value⟩)
      (fun e debug he => ⟨covers.occurs named, haccs, ?_⟩) covers signed.skipGap.reaches
    rintro e' ⟨⟩
    exact he

theorem twins_blockForm {c : Cursor} (covers : S.Covers c) :
    Twins S.Occurs (blockForm c) (blockForm c) fun r => c.Passes r.2 ∧ r.1.Sourced S :=
  (twins_ofExcept (Q := fun r => c.Passes r.2 ∧ c.Includes r.1)
    fun _ hr => ⟨passes_block hr, includes_block hr⟩).bind fun _ hr => twins_pure ⟨hr.1, covers.piece hr.2⟩

theorem twins_conditionalForm (accord : ctx.Accord S ctx') {c : Cursor} (covers : S.Covers c) :
    Twins S.Occurs (conditionalForm ctx c) (conditionalForm ctx' c)
      fun r => c.Passes r.2 ∧ r.1.Sourced S :=
  (twins_branches accord.names (by decide) covers).bind fun _ hr => twins_pure hr

theorem twins_watchForm (accord : ctx.Accord S ctx') {c : Cursor} (covers : S.Covers c) :
    Twins S.Occurs (watchForm ctx c) (watchForm ctx' c) fun r => c.Passes r.2 ∧ r.1.Sourced S :=
  (twins_branches accord.names (by decide) covers).withNotes.bind
    fun _ hr => twins_pure ⟨hr.1.1, hr.1.2, hr.2⟩

theorem twins_functionForm (accord : ctx.Accord S ctx') {c : Cursor} (covers : S.Covers c) :
    Twins S.Occurs (functionForm ctx c) (functionForm ctx' c)
      fun r => c.Passes r.2 ∧ r.1.Sourced S := by
  refine (twins_ofExcept (Q := fun r => c.Passes r.2) fun r hr => passes_identifier hr).bind ?_
  rintro ⟨word, d⟩ hd
  refine twins_ite (fun _ => ?_) fun _ => ?_
  · exact (twins_fail (Q := fun _ => False) _).bind fun _ h => h.elim
  · dsimp only [measureGap]
    cases gap d.rest with
    | zero => exact twins_fail _
    | succ width =>
      refine (twins_ofExcept (Q := fun r => (skipGap d).Passes r.2 ∧ (skipGap d).Mentions r.1)
        fun r hr => ⟨passes_bindingName hr, mentions_bindingName hr⟩).bind ?_
      rintro ⟨name, e⟩ ⟨he, named⟩
      have name_passed : c.Passes e := hd.skipGap.then he.reaches
      refine (twins_ofExcept (Q := fun r => e.Reaches r.2 ∧ ∀ p ∈ r.1, e.Mentions p)
        fun r hr => ⟨reaches_params hr, mentions_params hr⟩).bind ?_
      rintro ⟨ps, f⟩ ⟨hf, params⟩
      have params_passed : c.Passes (skipGap f) := (name_passed.then hf).skipGap
      dsimp only
      cases harrow : (skipGap f).consume? "=>" with
      | none => exact twins_fail _
      | some g =>
        have arrow : c.Passes g := params_passed.then (passes_consume? (by decide) harrow).reaches
        refine (twins_ofExcept (Q := fun r => g.Reaches r.2 ∧
          ∃ text pos block, r.1 = .script text pos block ∧ g.Includes ⟨text, pos⟩)
          fun r hr => ⟨reaches_functionBody hr, includes_functionBody hr⟩).bind ?_
        rintro ⟨body, b⟩ ⟨hb, text, pos, block, hbody, piece⟩
        have whole : c.Passes b := arrow.then hb
        have code : S.Code ⟨name, ps, body, c.pos.line⟩ :=
          ⟨fun p hp => covers.occurs (name_passed.reaches.includes.mentions (params p hp)),
            text, pos, block, hbody, covers.piece (arrow.reaches.includes.trans piece)⟩
        have sourced : (Statement.function ⟨name, ps, body, c.pos.line⟩).Sourced S :=
          ⟨covers.occurs (hd.skipGap.reaches.includes.mentions named), code⟩
        refine twins_ite (fun _ => ?_) fun _ => ?_
        · cases hend : statementEnd (skipGap b) with
          | error e => exact twins_pure ⟨whole, sourced⟩
          | ok r => exact twins_pure ⟨whole.skipGap.then (passes_statementEnd hend).reaches, sourced⟩
        · exact (twins_finish accord.endCloses b).bind fun _ hr => twins_pure ⟨whole.then hr, sourced⟩

theorem twins_returnForm (accord : ctx.Accord S ctx') {c : Cursor} (covers : S.Covers c) :
    Twins S.Occurs (returnForm ctx c) (returnForm ctx' c) fun r => c.Passes r.2 ∧ r.1.Sourced S := by
  unfold returnForm
  cases hword : keyword? "return" c with
  | none => exact twins_fail _
  | some d =>
    have start : c.Passes d := passes_keyword? (by decide) hword
    refine twins_ite (fun _ => ?_) fun _ => ?_
    · refine (twins_finish accord.endCloses d).bind fun _ hr => twins_pure ⟨start.then hr, ?_⟩
      exact fun _ h => nomatch h
    · refine twins_value_finish accord (fun value => .giveBack (some value)) (fun e debug he => ?_) covers
        start.skipGap.reaches
      rintro e' ⟨⟩
      exact he

theorem twins_callForm (accord : ctx.Accord S ctx') {c : Cursor} (covers : S.Covers c) :
    Twins S.Occurs (callForm ctx c) (callForm ctx' c) fun r => c.Passes r.2 ∧ r.1.Sourced S := by
  refine (twins_readCall accord.names false Terminator.never covers).bind ?_
  rintro ⟨b, d⟩ ⟨hd, hb⟩
  refine (twins_readAccessors accord.names (covers.reaches hd.reaches)).bind ?_
  rintro ⟨accs, e⟩ ⟨he, haccs⟩
  exact (twins_finish accord.endCloses e).bind fun _ hr => twins_pure ⟨(hd.then he).then hr, hb, haccs⟩

theorem twins_expressionForm (accord : ctx.Accord S ctx') {c : Cursor} (covers : S.Covers c) :
    Twins S.Occurs (expressionForm ctx c) (expressionForm ctx' c)
      fun r => c.Passes r.2 ∧ r.1.Sourced S :=
  twins_value_finish accord .expression (fun _ _ he => he) covers (.refl c)

/-- The first form that matches is the same, and passes what it has read. -/
theorem twins_forms (accord : ctx.Accord S ctx') (otherwise : ParseError) {c : Cursor} (covers : S.Covers c) :
    Twins S.Occurs (firstOf otherwise ((forms ctx).map fun form => form c))
      (firstOf otherwise ((forms ctx').map fun form => form c)) fun r => c.Passes r.2 ∧ r.1.Sourced S := by
  refine (twins_declarationForm accord covers).orElse ?_
  refine (twins_assignmentForm accord covers).orElse ?_
  refine (twins_blockForm covers).orElse ?_
  refine (twins_conditionalForm accord covers).orElse ?_
  refine (twins_watchForm accord covers).orElse ?_
  refine (twins_functionForm accord covers).orElse ?_
  refine (twins_returnForm accord covers).orElse ?_
  refine (twins_callForm accord covers).orElse ?_
  refine (twins_expressionForm accord covers).orElse ?_
  exact twins_fail otherwise

/-- Statements are read the same, and what was read comes from the source. -/
theorem statement_accord (accord : ctx.Accord S ctx') {c : Cursor} (covers : S.Covers c) :
    statement ctx c = statement ctx' c ∧
      ∀ {stmt d}, statement ctx c = .ok (stmt, d) → c.Passes d ∧ stmt.Sourced S := by
  have twins := twins_forms accord ⟨.unexpectedToken, "no statement matches", some c.pos⟩ covers
  refine ⟨?_, fun {stmt d} h => ?_⟩
  · unfold statement
    dsimp only
    rw [twins.same]
  · unfold statement at h
    dsimp only at h
    split at h
    · next hr =>
      cases h
      exact twins.gives.of_outcome_ok hr
    · cases h

end Forms

theorem StatementContext.accord_any (ctx : StatementContext) : ctx.Accord Source.any ctx :=
  ⟨ctx.names.accord_any, rfl⟩

section Forms

variable {ctx : StatementContext}

/-- Each form passes what it has read, and what was read comes from the source. -/
theorem gives_form_sourced {S : Source} (accord : ctx.Accord S ctx) {form : Form} (h : form ∈ forms ctx)
    {c : Cursor} (covers : S.Covers c) : (form c).Gives fun r => c.Passes r.2 ∧ r.1.Sourced S := by
  simp only [forms, List.mem_cons, List.not_mem_nil, or_false] at h
  rcases h with rfl | rfl | rfl | rfl | rfl | rfl | rfl | rfl | rfl
  · exact (twins_declarationForm accord covers).gives
  · exact (twins_assignmentForm accord covers).gives
  · exact (twins_blockForm covers).gives
  · exact (twins_conditionalForm accord covers).gives
  · exact (twins_watchForm accord covers).gives
  · exact (twins_functionForm accord covers).gives
  · exact (twins_returnForm accord covers).gives
  · exact (twins_callForm accord covers).gives
  · exact (twins_expressionForm accord covers).gives

theorem gives_form {form : Form} (h : form ∈ forms ctx) (c : Cursor) :
    (form c).Gives fun r => c.Passes r.2 :=
  (gives_form_sourced ctx.accord_any h (Source.covers_any c)).mono fun _ hr => hr.1

theorem passes_statement {c d : Cursor} {stmt : Statement} (h : statement ctx c = .ok (stmt, d)) :
    c.Passes d :=
  ((statement_accord ctx.accord_any (Source.covers_any c)).2 h).1

theorem settled_statement {c : Cursor} {e : Error} (h : statement ctx c = .error e) :
    ∃ e', Reported e' ∧ e = e'.settled := by
  have twins := twins_forms ctx.accord_any ⟨.unexpectedToken, "no statement matches", some c.pos⟩
    (Source.covers_any c)
  unfold statement at h
  dsimp only at h
  split at h
  · cases h
  · next e' hr =>
    cases h
    exact ⟨e', twins.gives.of_outcome_error hr, rfl⟩

end Forms

/-! ## Hoisted declarations -/

/-- A hoisted declaration has its name and its initializer from the text. -/
def Hoist.From (c : Cursor) (h : Hoist) : Prop := c.Reaches h.initializer ∧ c.Mentions h.header.name

theorem Hoist.From.of_reaches {c d : Cursor} (hd : c.Reaches d) {h : Hoist} (hh : h.From d) : h.From c :=
  ⟨hd.trans hh.1, hd.includes.mentions hh.2⟩

theorem from_hoistAt? {c : Cursor} {h : Hoist} (hh : hoistAt? c = some h) : h.From c := by
  unfold hoistAt? at hh
  split at hh
  · next hheader =>
    split at hh
    · cases hh
      have read := passes_declarationHeader hheader
      exact ⟨read.1.reaches, read.2⟩
    · cases hh
  · cases hh

/-- A hoisted declaration was found somewhere in the text. -/
theorem found_hoistsFrom (depth : Nat) (atStart : Bool) (passed : Nat) (pos : Position) (t : Text) :
    ∀ h ∈ hoistsFrom depth atStart passed pos t, ∃ e, Cursor.Reaches ⟨t, pos⟩ e ∧ hoistAt? e = some h := by
  induction t generalizing depth atStart passed pos with
  | nil =>
    intro h hh
    rw [hoistsFrom] at hh
    cases hh
  | cons x xs ih =>
    have step : Cursor.Reaches ⟨x :: xs, pos⟩ ⟨xs, pos.after x⟩ := reaches_next ⟨x :: xs, pos⟩
    have later {depth : Nat} {atStart : Bool} {passed : Nat} :
        ∀ h ∈ hoistsFrom depth atStart passed (pos.after x) xs,
          ∃ e, Cursor.Reaches ⟨x :: xs, pos⟩ e ∧ hoistAt? e = some h := by
      intro h hh
      obtain ⟨e, reached, found⟩ := ih _ _ _ _ h hh
      exact ⟨e, step.trans reached, found⟩
    intro h hh
    cases passed with
    | succ n =>
      rw [hoistsFrom] at hh
      exact later h hh
    | zero =>
      rw [hoistsFrom] at hh
      split at hh
      · exact later h hh
      · rcases List.mem_append.1 hh with here | hh
        · split at here
          · exact ⟨_, .refl _, Option.mem_toList.1 here⟩
          · cases here
        · split at hh
          · exact later h hh
          · split at hh
            · exact later h hh
            · split at hh
              · exact later h hh
              · exact later h hh

theorem found_hoists (c : Cursor) : ∀ h ∈ hoists c, ∃ e, c.Reaches e ∧ hoistAt? e = some h :=
  found_hoistsFrom 0 true 0 c.pos c.rest

theorem from_hoists (c : Cursor) : ∀ h ∈ hoists c, h.From c := by
  intro h hh
  obtain ⟨e, reached, found⟩ := found_hoists c h hh
  exact (from_hoistAt? found).of_reaches reached

end Gapscript
