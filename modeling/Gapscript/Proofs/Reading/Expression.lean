import Gapscript.Proofs.Reading.Source

/-!
# Reading expressions

An expression that is read passes some text, and the budget of `expressionAt` is enough for every
text shorter than it: each production uses the reader it is given only on what is left after it has
read something itself. What is read comes from the text and from the names in force, and names that
mean the same by every word of the text are read the same. One pass over the productions shows all
of this of two readers at once; the induction is on the budget (`twins_expressionAt`).
-/

namespace Gapscript

open Lexical Cursor Reading

/-! ## Operators and functions -/

theorem BinaryOp.token_ne_nil (op : BinaryOp) : op.token.toList ≠ [] := by cases op <;> decide

theorem passes_binaryOperator {c d : Cursor} {op : BinaryOp} (h : binaryOperator c = .ok (op, d)) :
    c.Passes d := by
  unfold binaryOperator at h
  split at h
  · cases h
  · next found hop =>
    have starts : c.startsWith found.token = true := by simpa using List.find?_some hop
    have hlen : 0 < found.token.length := by
      rw [← String.length_toList]
      exact List.length_pos_iff.2 found.token_ne_nil
    dsimp only at h
    split at h
    · cases h
    · cases h
      exact passes_skip hlen (rest_ne_nil_of_startsWith op.token_ne_nil starts)

theorem reaches_unaryRuns {c d : Cursor} {runs : List UnaryRun} (h : unaryRuns c = (runs, d)) :
    c.Reaches d := by
  cases h
  exact reaches_skip c _

theorem reaches_paramsFrom {fuel : Nat} {c d : Cursor} {ps : List String}
    (h : paramsFrom fuel c = .ok (ps, d)) : c.Reaches d := by
  induction fuel generalizing c ps with
  | zero => cases h; exact .refl _
  | succ fuel ih =>
    rw [paramsFrom] at h
    split at h
    · cases h; exact reaches_skipGap c
    · split at h
      · cases h
      · next name e hname =>
        have first : c.Passes (skipGap e) := ((reaches_skipGap c).then (passes_bindingName hname)).skipGap
        dsimp only at h
        split at h
        · cases h; exact first.reaches
        · next e' hcomma =>
          have second := first.reaches.then (passes_consume? (by decide) hcomma)
          cases hmore : paramsFrom fuel e' with
          | error err => rw [hmore] at h; cases h
          | ok r =>
            rw [hmore] at h
            cases h
            exact second.reaches.trans (ih hmore)

theorem reaches_params {c d : Cursor} {ps : List String} (h : params c = .ok (ps, d)) : c.Reaches d :=
  reaches_paramsFrom h

/-- Parameters are read the same with any two budgets that are larger than the text. -/
theorem paramsFrom_eq {fuel fuel' : Nat} {c : Cursor} (h : c.rest.length < fuel)
    (h' : c.rest.length < fuel') : paramsFrom fuel c = paramsFrom fuel' c := by
  induction fuel generalizing fuel' c with
  | zero => omega
  | succ fuel ih =>
    obtain ⟨fuel', rfl⟩ : ∃ n, fuel' = n + 1 := ⟨fuel' - 1, by omega⟩
    rw [paramsFrom, paramsFrom]
    cases hname : bindingName (skipGap c) with
    | error e => rfl
    | ok r =>
      obtain ⟨name, d⟩ := r
      dsimp only
      have first : c.Passes (skipGap d) := ((reaches_skipGap c).then (passes_bindingName hname)).skipGap
      cases hcomma : (skipGap d).consume? "," with
      | none => rfl
      | some d' =>
        have shorter := (first.reaches.then (passes_consume? (by decide) hcomma)).length_lt
        have same : paramsFrom fuel d' = paramsFrom fuel' d' := ih (by omega) (by omega)
        dsimp only
        rw [same]

theorem reaches_functionBody {c d : Cursor} {term : Terminator} {body : Body}
    (h : functionBody term c = .ok (body, d)) : c.Reaches d := by
  unfold functionBody at h
  dsimp only at h
  split at h
  · cases hb : block (skipGap c) with
    | error e => rw [hb] at h; cases h
    | ok r =>
      rw [hb] at h
      cases h
      exact ((reaches_skipGap c).then (passes_block hb)).reaches
  · split at h
    · cases h
    · cases h
      exact (reaches_skipGap c).trans (reaches_skip _ _)

theorem passes_functionLiteral {c d : Cursor} {term : Terminator} {f : Function}
    (h : functionLiteral term c = .ok (f, d)) : c.Passes d := by
  unfold functionLiteral at h
  cases hp : params c with
  | error e => rw [hp] at h; cases h
  | ok r =>
    rw [hp] at h
    dsimp only [bind, Except.bind] at h
    split at h
    · cases h
    · next e harrow =>
      have first := (reaches_params hp).skipGap.then (passes_consume? (by decide) harrow)
      cases hb : functionBody term e with
      | error err => rw [hb] at h; cases h
      | ok b =>
        rw [hb] at h
        cases h
        exact first.then (reaches_functionBody hb)

theorem passes_implicitString {c d : Cursor} {term : Terminator} {b : Base}
    (h : implicitString term c = .ok (b, d)) : c.Passes d := by
  unfold implicitString at h
  split at h
  · cases h
  · split at h
    · cases h
    · next hchunk =>
      split at h
      · cases h
      · cases h
        exact passes_chunk hchunk

theorem passes_objectKey {c d : Cursor} {key : String} (h : objectKey c = .ok (key, d)) :
    c.Passes d := by
  unfold objectKey at h
  split at h
  · cases hq : quotedString c with
    | error e => rw [hq] at h; cases h
    | ok r =>
      rw [hq] at h
      cases h
      exact passes_quotedString hq
  · exact passes_identifier h

/-! ## What functions are written as -/

theorem mentions_paramsFrom {fuel : Nat} {c d : Cursor} {ps : List String}
    (h : paramsFrom fuel c = .ok (ps, d)) : ∀ p ∈ ps, c.Mentions p := by
  induction fuel generalizing c ps with
  | zero =>
    cases h
    exact fun p hp => nomatch hp
  | succ fuel ih =>
    have start : c.Reaches (skipGap c) := reaches_skipGap c
    rw [paramsFrom] at h
    split at h
    · cases h
      exact fun p hp => nomatch hp
    · split at h
      · cases h
      · next name e hname =>
        have named : c.Mentions name := start.includes.mentions (mentions_bindingName hname)
        dsimp only at h
        split at h
        · cases h
          exact List.forall_mem_singleton.2 named
        · next e' hcomma =>
          have passed : c.Reaches e' := ((start.then (passes_bindingName hname)).skipGap.then
            (passes_consume? (by decide) hcomma).reaches).reaches
          cases hmore : paramsFrom fuel e' with
          | error err => rw [hmore] at h; cases h
          | ok r =>
            rw [hmore] at h
            cases h
            exact List.forall_mem_cons.2 ⟨named, fun p hp => passed.includes.mentions (ih hmore p hp)⟩

theorem mentions_params {c d : Cursor} {ps : List String} (h : params c = .ok (ps, d)) :
    ∀ p ∈ ps, c.Mentions p := mentions_paramsFrom h

/-- The body of a function is a piece of the text. -/
theorem includes_functionBody {c d : Cursor} {term : Terminator} {body : Body}
    (h : functionBody term c = .ok (body, d)) :
    ∃ text pos block, body = .script text pos block ∧ c.Includes ⟨text, pos⟩ := by
  have start : c.Includes (skipGap c) := (reaches_skipGap c).includes
  unfold functionBody at h
  dsimp only at h
  split at h
  · cases hb : block (skipGap c) with
    | error e => rw [hb] at h; cases h
    | ok r =>
      rw [hb] at h
      cases h
      exact ⟨r.1.rest, r.1.pos, true, rfl, start.trans (includes_block hb)⟩
  · split at h
    · cases h
    · cases h
      have source : (expressionSource term (skipGap c)).1 <+: (skipGap c).rest := List.take_prefix _ _
      exact ⟨_, _, false, rfl,
        start.trans (includes_of_isPrefix ((Text.dropEnd_isPrefix _ _).trans source))⟩

/-- A function literal is written in every source that covers its text. -/
theorem code_functionLiteral {S : Source} {c d : Cursor} {term : Terminator} {f : Function}
    (h : functionLiteral term c = .ok (f, d)) (covers : S.Covers c) : S.Code f := by
  unfold functionLiteral at h
  cases hp : params c with
  | error e => rw [hp] at h; cases h
  | ok r =>
    rw [hp] at h
    dsimp only [bind, Except.bind] at h
    split at h
    · cases h
    · next e harrow =>
      have arrow : c.Reaches e :=
        ((reaches_params hp).skipGap.then (passes_consume? (by decide) harrow)).reaches
      cases hb : functionBody term e with
      | error err => rw [hb] at h; cases h
      | ok b =>
        rw [hb] at h
        cases h
        obtain ⟨text, pos, block, hbody, piece⟩ := includes_functionBody hb
        exact ⟨fun p hp' => covers.occurs (mentions_params hp p hp'),
          text, pos, block, hbody, covers.piece (arrow.includes.trans piece)⟩

theorem exists_of_implicitString {c d : Cursor} {term : Terminator} {b : Base}
    (h : implicitString term c = .ok (b, d)) : ∃ s, b = .literal (.string s) true := by
  unfold implicitString at h
  split at h
  · cases h
  · split at h
    · cases h
    · split at h
      · cases h
      · cases h
        exact ⟨_, rfl⟩

/-! ## Productions that contain expressions -/

/-- Two readers read the same expressions off every text of fewer than `n` characters that the
source covers. -/
def ReadsBelow (S : Source) (n : Nat) (self self' : ExprReader) : Prop :=
  ∀ term c, S.Covers c → c.rest.length < n →
    Twins S.Occurs (self term c) (self' term c) fun r => c.Passes r.2 ∧ r.1.Sourced S

section Productions

variable {S : Source} {names names' : Names} {self self' : ExprReader} {n : Nat}

theorem twins_arguments (hself : ReadsBelow S n self self') {tooFew : Nat → Error}
    (few : ∀ k, Reported (tooFew k)) (term : Terminator) (read left : Nat) {c : Cursor}
    (covers : S.Covers c) (hc : c.rest.length < n) :
    Twins S.Occurs (arguments self tooFew term read left c) (arguments self' tooFew term read left c)
      fun r => c.Reaches r.2 ∧ Expr.AllSourced S r.1 := by
  induction left generalizing read c with
  | zero => exact twins_pure ⟨.refl c, trivial⟩
  | succ left ih =>
    have start : c.Reaches (skipGap c) := reaches_skipGap c
    rw [arguments, arguments]
    refine twins_ite (fun _ => ?_) fun _ => ?_
    · exact (twins_throw (Q := fun _ => False) (few read)).bind fun _ h => h.elim
    · refine (hself _ _ (covers.reaches start) (Nat.lt_of_le_of_lt start.length_le hc)).attempt.bind
        fun r hr => ?_
      cases r with
      | none => exact twins_throw (few read)
      | some r =>
        have first : c.Passes r.2 := start.then (hr r rfl).1
        have sourced := (hr r rfl).2
        refine twins_ite (fun _ => ?_) fun _ => ?_
        · exact twins_pure ⟨first.reaches, sourced, trivial⟩
        · cases hcomma : (skipGap r.2).consume? "," with
          | none => exact twins_throw (few (read + 1))
          | some d =>
            have next : c.Passes d := first.skipGap.then (passes_consume? (by decide) hcomma).reaches
            refine (ih (read + 1) (covers.reaches next.reaches) (Nat.lt_trans next.length_lt hc)).bind
              fun more hmore => ?_
            exact twins_pure ⟨(next.then hmore.1).reaches, sourced, hmore.2⟩

theorem twins_call (accord : names.Accord S names') (hself : ReadsBelow S n self self') (strict : Bool)
    (term : Terminator) {c : Cursor} (covers : S.Covers c) (hc : c.rest.length ≤ n) :
    Twins S.Occurs (call names self strict term c) (call names' self' strict term c)
      fun r => c.Passes r.2 ∧ r.1.Sourced S := by
  refine (twins_ofExcept (Q := fun r => c.Passes r.2 ∧ c.Mentions r.1)
    fun r hr => ⟨passes_bindingName hr, mentions_bindingName hr⟩).bind ?_
  rintro ⟨name, d⟩ ⟨hd, named⟩
  dsimp only
  rw [← accord.callee (covers.occurs named)]
  cases hfn : names.callee? strict name with
  | none => exact twins_fail _
  | some fn =>
    refine (twins_arguments hself (fun k => .tooFew _ _ _ _) term _ _ (covers.reaches hd.reaches)
      (Nat.lt_of_lt_of_le hd.length_lt hc)).bind fun r hr => ?_
    exact twins_pure ⟨hd.then hr.1, accord.callable hfn, hr.2⟩

theorem twins_variableName (accord : names.Accord S names') {c : Cursor} (covers : S.Covers c) :
    Twins S.Occurs (variableName names c) (variableName names' c)
      fun r => c.Passes r.2 ∧ r.1.Sourced S := by
  refine (twins_ofExcept (Q := fun r => c.Passes r.2 ∧ c.Mentions r.1)
    fun r hr => ⟨passes_bindingName hr, mentions_bindingName hr⟩).bind ?_
  rintro ⟨name, d⟩ ⟨hd, named⟩
  dsimp only
  rw [← accord.value (covers.occurs named)]
  cases hv : names.value? name with
  | none => exact twins_fail _
  | some v =>
    exact (twins_note (covers.occurs named)).bind fun _ _ => twins_pure ⟨hd, accord.holds hv⟩

theorem twins_objectEntries (hself : ReadsBelow S n self self') {fuel : Nat} {c : Cursor}
    (covers : S.Covers c) (hc : c.rest.length < n) (hfuel : c.rest.length < fuel) :
    Twins S.Occurs (objectEntries self fuel c) (objectEntries self' fuel c)
      fun r => c.Reaches r.2.2 ∧ Expr.AllSourced S r.2.1 := by
  induction fuel generalizing c with
  | zero => omega
  | succ fuel ih =>
    have start : c.Reaches (skipGap c) := reaches_skipGap c
    rw [objectEntries, objectEntries]
    cases hclose : (skipGap c).consume? "\x7d" with
    | some d => exact twins_pure ⟨(start.then (passes_consume? (by decide) hclose)).reaches, trivial⟩
    | none =>
      refine (twins_ofExcept (Q := fun r => (skipGap c).Passes r.2) fun r hr => passes_objectKey hr).bind ?_
      rintro ⟨key, d⟩ hkey
      dsimp only
      cases hcolon : (skipGap d).consume? ":" with
      | none => exact twins_fail _
      | some d =>
        have keyed : c.Passes d :=
          (start.then hkey).skipGap.then (passes_consume? (by decide) hcolon).reaches
        refine (hself _ _ (covers.reaches keyed.skipGap.reaches) (Nat.lt_trans keyed.skipGap.length_lt hc)).bind ?_
        rintro ⟨value, d⟩ ⟨hvalue, sourced⟩
        have valued : c.Passes (skipGap d) := (keyed.skipGap.then hvalue.reaches).skipGap
        dsimp only
        cases hcomma : (skipGap d).consume? "," with
        | some d =>
          have next : c.Passes d := valued.then (passes_consume? (by decide) hcomma).reaches
          have shorter := next.length_lt
          refine (ih (covers.reaches next.reaches) (by omega) (by omega)).bind ?_
          rintro ⟨keys, values, d⟩ hmore
          exact twins_pure ⟨(next.then hmore.1).reaches, sourced, hmore.2⟩
        | none =>
          dsimp only
          cases hclose : (skipGap d).consume? "\x7d" with
          | some d =>
            exact twins_pure
              ⟨(valued.then (passes_consume? (by decide) hclose).reaches).reaches, sourced, trivial⟩
          | none => exact twins_fail _

theorem twins_object (hself : ReadsBelow S n self self') {fuel : Nat} {c : Cursor} (covers : S.Covers c)
    (hc : c.rest.length ≤ n) (hfuel : c.rest.length ≤ fuel) :
    Twins S.Occurs (object self fuel c) (object self' fuel c) fun r => c.Passes r.2 ∧ r.1.Sourced S := by
  unfold object
  cases hopen : c.consume? "\x7b" with
  | none => exact twins_fail _
  | some d =>
    have first : c.Passes d := passes_consume? (by decide) hopen
    have shorter := first.length_lt
    refine (twins_objectEntries hself (covers.reaches first.reaches) (by omega) (by omega)).bind ?_
    rintro ⟨keys, values, d⟩ hd
    exact twins_pure ⟨first.then hd.1, hd.2⟩

theorem twins_arrayElements (hself : ReadsBelow S n self self') {fuel : Nat} {c : Cursor}
    (covers : S.Covers c) (hc : c.rest.length < n) (hfuel : c.rest.length < fuel) :
    Twins S.Occurs (arrayElements self fuel c) (arrayElements self' fuel c)
      fun r => c.Reaches r.2 ∧ Expr.AllSourced S r.1 := by
  induction fuel generalizing c with
  | zero => omega
  | succ fuel ih =>
    have start : c.Reaches (skipGap c) := reaches_skipGap c
    rw [arrayElements, arrayElements]
    cases hclose : (skipGap c).consume? "]" with
    | some d => exact twins_pure ⟨(start.then (passes_consume? (by decide) hclose)).reaches, trivial⟩
    | none =>
      refine (hself _ _ (covers.reaches start) (Nat.lt_of_le_of_lt start.length_le hc)).bind ?_
      rintro ⟨e, d⟩ ⟨hd, sourced⟩
      have read : c.Passes (skipGap d) := (start.then hd).skipGap
      dsimp only
      cases hcomma : (skipGap d).consume? "," with
      | some d =>
        have next : c.Passes d := read.then (passes_consume? (by decide) hcomma).reaches
        have shorter := next.length_lt
        refine (ih (covers.reaches next.reaches) (by omega) (by omega)).bind ?_
        rintro ⟨es, d⟩ hmore
        exact twins_pure ⟨(next.then hmore.1).reaches, sourced, hmore.2⟩
      | none =>
        dsimp only
        cases hclose : (skipGap d).consume? "]" with
        | some d =>
          exact twins_pure
            ⟨(read.then (passes_consume? (by decide) hclose).reaches).reaches, sourced, trivial⟩
        | none => exact twins_fail _

theorem twins_array (hself : ReadsBelow S n self self') {fuel : Nat} {c : Cursor} (covers : S.Covers c)
    (hc : c.rest.length ≤ n) (hfuel : c.rest.length ≤ fuel) :
    Twins S.Occurs (array self fuel c) (array self' fuel c) fun r => c.Passes r.2 ∧ r.1.Sourced S := by
  unfold array
  cases hopen : c.consume? "[" with
  | none => exact twins_fail _
  | some d =>
    have first : c.Passes d := passes_consume? (by decide) hopen
    have shorter := first.length_lt
    refine (twins_arrayElements hself (covers.reaches first.reaches) (by omega) (by omega)).bind ?_
    rintro ⟨es, d⟩ hd
    exact twins_pure ⟨first.then hd.1, hd.2⟩

theorem twins_accessors (hself : ReadsBelow S n self self') {fuel : Nat} {c : Cursor} (covers : S.Covers c)
    (hc : c.rest.length ≤ n) (hfuel : c.rest.length < fuel) :
    Twins S.Occurs (accessors self fuel c) (accessors self' fuel c)
      fun r => c.Reaches r.2 ∧ Accessor.AllSourced S r.1 := by
  induction fuel generalizing c with
  | zero => omega
  | succ fuel ih =>
    have nothing : Twins S.Occurs (pure ([], c)) (pure ([], c))
        fun r : List Accessor × Cursor => c.Reaches r.2 ∧ Accessor.AllSourced S r.1 :=
      twins_pure ⟨.refl c, trivial⟩
    rw [accessors.eq_def, accessors.eq_def]
    dsimp only
    split
    · cases hname : identifier Terminator.name c.next with
      | error e => exact nothing
      | ok r =>
        obtain ⟨name, d⟩ := r
        have named : c.Passes d := (reaches_next c).then (passes_identifier hname)
        have shorter := named.length_lt
        refine (ih (covers.reaches named.reaches) (by omega) (by omega)).bind ?_
        rintro ⟨more, d⟩ hmore
        exact twins_pure ⟨(named.then hmore.1).reaches, hmore.2⟩
    · next hopen =>
      have inside : c.Passes (skipGap c.next) :=
        (passes_next (by rw [hopen]; exact List.cons_ne_nil _ _)).skipGap
      refine (hself _ _ (covers.reaches inside.reaches) (Nat.lt_of_lt_of_le inside.length_lt hc)).attempt.bind
        fun r hr => ?_
      cases r with
      | none => exact nothing
      | some r =>
        dsimp only
        cases hclose : (skipGap r.2).consume? "]" with
        | none => exact nothing
        | some d =>
          have closed : c.Passes d :=
            (inside.then (hr r rfl).1.reaches).skipGap.then (passes_consume? (by decide) hclose).reaches
          have shorter := closed.length_lt
          refine (ih (covers.reaches closed.reaches) (by omega) (by omega)).bind ?_
          rintro ⟨more, d⟩ hmore
          exact twins_pure ⟨(closed.then hmore.1).reaches, (hr r rfl).2, hmore.2⟩
    · exact nothing

theorem twins_literalBase (plain : ∀ {v : Value}, v.isReference = false → S.Holds v) (c : Cursor) :
    Twins S.Occurs (literalBase c) (literalBase c) fun r => c.Passes r.2 ∧ r.1.Sourced S := by
  refine twins_ofExcept (Q := fun r : Base × Cursor => c.Passes r.2 ∧ r.1.Sourced S) fun r hr => ?_
  cases hl : literal c with
  | error e => rw [hl] at hr; cases hr
  | ok l =>
    rw [hl] at hr
    cases hr
    exact ⟨passes_literal hl, plain (isReference_literal hl)⟩

theorem twins_functionBase (term : Terminator) {c : Cursor} (covers : S.Covers c) :
    Twins S.Occurs (functionBase term c) (functionBase term c) fun r => c.Passes r.2 ∧ r.1.Sourced S := by
  refine twins_ofExcept (Q := fun r : Base × Cursor => c.Passes r.2 ∧ r.1.Sourced S) fun r hr => ?_
  cases hf : functionLiteral term c with
  | error e => rw [hf] at hr; cases hr
  | ok f =>
    rw [hf] at hr
    cases hr
    exact ⟨passes_functionLiteral hf, code_functionLiteral hf covers⟩

theorem twins_implicitBase (plain : ∀ {v : Value}, v.isReference = false → S.Holds v) (term : Terminator)
    (c : Cursor) :
    Twins S.Occurs (implicitBase term c) (implicitBase term c)
      fun r => c.Passes r.2 ∧ r.1.Sourced S := by
  refine twins_ofExcept (Q := fun r : Base × Cursor => c.Passes r.2 ∧ r.1.Sourced S) fun r hr => ?_
  obtain ⟨b, d⟩ := r
  obtain ⟨t, rfl⟩ := exists_of_implicitString hr
  exact ⟨passes_implicitString hr, plain rfl⟩

theorem twins_base (accord : names.Accord S names') (hself : ReadsBelow S n self self') {fuel : Nat}
    (term : Terminator) {c : Cursor} (covers : S.Covers c) (hc : c.rest.length ≤ n)
    (hfuel : c.rest.length ≤ fuel) :
    Twins S.Occurs (base names self fuel term c) (base names' self' fuel term c)
      fun r => c.Passes r.2 ∧ r.1.Sourced S := by
  refine (twins_call accord hself true term covers hc).orElse ?_
  refine (twins_variableName accord covers).orElse ?_
  refine (twins_literalBase accord.plain c).orElse ?_
  refine (twins_object hself covers hc hfuel).orElse ?_
  refine (twins_array hself covers hc hfuel).orElse ?_
  refine (twins_functionBase term covers).orElse ?_
  refine (twins_implicitBase accord.plain term c).orElse ?_
  exact twins_fail _

theorem twins_atom (accord : names.Accord S names') (hself : ReadsBelow S n self self') {fuel : Nat}
    (term : Terminator) {c : Cursor} (covers : S.Covers c) (hc : c.rest.length ≤ n)
    (hfuel : c.rest.length ≤ fuel) :
    Twins S.Occurs (atom names self fuel term c) (atom names' self' fuel term c)
      fun r => c.Passes r.2 ∧ r.1.Sourced S := by
  refine (twins_base accord hself term covers hc hfuel).bind ?_
  rintro ⟨b, d⟩ ⟨hb, sourced⟩
  have shorter : d.rest.length < c.rest.length := hb.length_lt
  refine (twins_accessors hself (c := d) (covers.reaches hb.reaches) (by omega) (by omega)).bind ?_
  rintro ⟨accs, e⟩ haccs
  exact twins_pure ⟨hb.then haccs.1, sourced, haccs.2⟩

theorem twins_operand (accord : names.Accord S names') (hself : ReadsBelow S n self self') {fuel : Nat}
    (term : Terminator) {c : Cursor} (covers : S.Covers c) (hc : c.rest.length ≤ n)
    (hfuel : c.rest.length ≤ fuel) :
    Twins S.Occurs (operand names self fuel term c) (operand names' self' fuel term c)
      fun r => c.Passes r.2.2 ∧ r.2.1.Sourced S := by
  have plain := twins_atom accord hself term covers hc hfuel
  unfold operand
  cases hruns : unaryRuns c with
  | mk runs d =>
    have start := reaches_unaryRuns hruns
    have shorter := start.length_le
    cases runs with
    | nil => exact plain.bind fun _ hr => twins_pure hr
    | cons run runs =>
      refine (twins_atom accord hself term (covers.reaches start) (by omega) (by omega)).attempt.bind
        fun r hr => ?_
      cases r with
      | none => exact plain.bind fun _ hr => twins_pure hr
      | some r => exact twins_pure ⟨start.then (hr r rfl).1, (hr r rfl).2⟩

theorem twins_operations (accord : names.Accord S names') (hself : ReadsBelow S n self self') {fuel : Nat}
    (term : Terminator) {left : Nat} {f : Fold} (sourced : f.Sourced S) {c : Cursor} (covers : S.Covers c)
    (hc : c.rest.length ≤ n) (hfuel : c.rest.length ≤ fuel) (hleft : c.rest.length < left) :
    Twins S.Occurs (operations names self fuel term left f c) (operations names' self' fuel term left f c)
      fun r => c.Reaches r.2 ∧ r.1.Sourced S := by
  induction left generalizing f c with
  | zero => omega
  | succ left ih =>
    have nothing : Twins S.Occurs (pure (f, c)) (pure (f, c))
        fun r : Fold × Cursor => c.Reaches r.2 ∧ r.1.Sourced S := twins_pure ⟨.refl c, sourced⟩
    rw [operations, operations]
    dsimp only [measureGap]
    refine twins_ite (fun _ => nothing) fun _ => ?_
    cases hop : binaryOperator (skipGap c) with
    | error e => exact nothing
    | ok r =>
      obtain ⟨op, d⟩ := r
      have start : c.Passes (skipGap d) := ((reaches_skipGap c).then (passes_binaryOperator hop)).skipGap
      have shorter := start.length_lt
      refine (twins_operand accord hself term (covers.reaches start.reaches) (by omega) (by omega)).attempt.bind
        fun r hr => ?_
      cases r with
      | none => exact nothing
      | some r =>
        have read : c.Passes r.2.2 := start.then (hr r rfl).1.reaches
        have shorter := read.length_lt
        have pushed := (sourced.pushBinary op (gap c.rest + gap d.rest)).pushOperand r.1 (hr r rfl).2
        exact (ih pushed (c := r.2.2) (covers.reaches read.reaches) (by omega) (by omega) (by omega)).mono
          fun _ hmore => ⟨(read.then hmore.1).reaches, hmore.2⟩

theorem twins_expressionWith (accord : names.Accord S names') (hself : ReadsBelow S n self self')
    (term : Terminator) {c : Cursor} (covers : S.Covers c) (hc : c.rest.length ≤ n) :
    Twins S.Occurs (expressionWith names self n term c) (expressionWith names' self' n term c)
      fun r => c.Passes r.2 ∧ r.1.Sourced S := by
  refine (twins_operand accord hself term covers hc hc).bind ?_
  rintro ⟨runs, e, d⟩ ⟨hd, sourced⟩
  have shorter : d.rest.length < c.rest.length := hd.length_lt
  have pushed : (Fold.pushOperand {} runs e).Sourced S :=
    Fold.Sourced.pushOperand (f := {}) (fun _ he => nomatch he) runs sourced
  refine (twins_operations accord hself term pushed (c := d) (covers.reaches hd.reaches) (by omega)
    (by omega) (by omega)).bind ?_
  rintro ⟨f, d⟩ hf
  refine twins_pure ⟨hd.then hf.1, ?_⟩
  cases hfinish : f.finish with
  | nil => exact sourced
  | cons e' es => exact hf.2.finish e' (by rw [hfinish]; exact List.mem_cons_self)

end Productions

/-! ## Expressions -/

section Expressions

variable {S : Source} {names names' : Names}

/-- The budget is enough for every text that is shorter. -/
theorem twins_expressionAt (accord : names.Accord S names') (n : Nat) :
    ReadsBelow S n (expressionAt names n) (expressionAt names' n) := by
  induction n with
  | zero => intro term c _ hc; omega
  | succ n ih =>
    intro term c covers hc
    exact twins_expressionWith accord ih term covers (Nat.le_of_lt_succ hc)

theorem twins_expression (accord : names.Accord S names') (term : Terminator) {c : Cursor}
    (covers : S.Covers c) :
    Twins S.Occurs (expression names term c) (expression names' term c)
      fun r => c.Passes r.2 ∧ r.1.Sourced S :=
  twins_expressionAt accord _ term c covers (Nat.lt_succ_self _)

theorem twins_fullExpression (accord : names.Accord S names') {c : Cursor} (covers : S.Covers c) :
    Twins S.Occurs (fullExpression names c) (fullExpression names' c) fun e => e.Sourced S := by
  refine (twins_expression accord Terminator.never (covers.reaches (reaches_skipGap c))).bind ?_
  rintro ⟨e, d⟩ ⟨-, sourced⟩
  exact twins_ite (fun _ => twins_pure sourced) fun _ => twins_fail _

theorem twins_readCall (accord : names.Accord S names') (strict : Bool) (term : Terminator) {c : Cursor}
    (covers : S.Covers c) :
    Twins S.Occurs (readCall names strict term c) (readCall names' strict term c)
      fun r => c.Passes r.2 ∧ r.1.Sourced S :=
  twins_call accord (twins_expressionAt accord _) strict term covers (Nat.le_refl _)

theorem twins_readAccessors (accord : names.Accord S names') {c : Cursor} (covers : S.Covers c) :
    Twins S.Occurs (readAccessors names c) (readAccessors names' c)
      fun r => c.Reaches r.2 ∧ Accessor.AllSourced S r.1 :=
  twins_accessors (twins_expressionAt accord _) covers (Nat.le_refl _) (Nat.lt_succ_self _)

end Expressions

theorem gives_expression (names : Names) (term : Terminator) (c : Cursor) :
    (expression names term c).Gives fun r => c.Passes r.2 :=
  (twins_expression names.accord_any term (Source.covers_any c)).gives.mono fun _ h => h.1

theorem gives_fullExpression (names : Names) (c : Cursor) :
    (fullExpression names c).Gives fun _ => True :=
  (twins_fullExpression names.accord_any (Source.covers_any c)).gives.mono fun _ _ => trivial

end Gapscript
