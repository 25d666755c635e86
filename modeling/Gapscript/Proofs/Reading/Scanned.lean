import Gapscript.Proofs.Reading.Heading
import Gapscript.Proofs.Expr.Folding

/-!
# The scan passes over what is read

If the tree that a production reads is legible, the scan for hoisted declarations passes over the text that it
was read from (`Scans`), one lemma for each production. An object ends with a brace behind which the scan looks
for a statement, so what follows it counts: `Continues` carries this from one part of an expression to the next.
A statement that is legible leaves the scan where the next statement may start (`ends_statement`).
-/

namespace Gapscript

open Lexical Cursor Reading

theorem Expr.operandwise_legible : Expr.Operandwise (·.legible = true) where
  unary op e := by rw [Expr.legible]
  binary op l r := by rw [Expr.legible, Bool.and_eq_true]

/-! ## From one part of an expression to the next -/

namespace Cursor

variable {b c d e : Cursor}

/-- What leads over a text to the first cursor leads on to the other one. -/
def Continues (c d : Cursor) : Prop := ∀ b : Cursor, b.Skips c → b.Skips d

theorem Continues.refl (c : Cursor) : c.Continues c := fun _ h => h

theorem Continues.trans (h : c.Continues d) (k : d.Continues e) : c.Continues e := fun b hb => k b (h b hb)

/-- No declaration stands at the first cursor. -/
theorem Skips.continues (h : c.Skips d) (clear : hoistAt? (skipGap c) = none) : c.Continues d :=
  fun _ hb => (hb.even clear).then h

/-- A token that is not the keyword of a declaration. -/
theorem clear_of_consume? {token : String} (first : token.toList.head?.any startsOther = true)
    (h : (Lexical.skipGap c).consume? token = some d) : hoistAt? (Lexical.skipGap c) = none := by
  unfold consume? at h
  split at h
  · next starts =>
    obtain ⟨t, p, same⟩ := exists_of_startsWith rfl starts
    rw [same]
    refine hoistAt?_eq_none fun y hy => ?_
    cases spelled : token.toList with
    | nil =>
      rw [spelled] at first
      cases first
    | cons x w =>
      rw [spelled] at first hy
      cases hy
      exact startsOther_iff.1 first
  · cases h

theorem clear_of_keyword? {word : String} (first : word.toList.head?.any startsOther = true)
    (h : keyword? word (Lexical.skipGap c) = some d) : hoistAt? (Lexical.skipGap c) = none := by
  unfold keyword? at h
  split at h
  · next consumed => exact clear_of_consume? first consumed
  · cases h

theorem clear_of_block {body : Cursor} (h : block (Lexical.skipGap c) = .ok (body, d)) :
    hoistAt? (Lexical.skipGap c) = none := by
  obtain ⟨S, T, p, same, -⟩ := parts_of_block h
  rw [same]
  exact hoistAt?_eq_none (by rintro _ ⟨⟩; decide)

theorem clear_of_assignMode {mode : AssignMode} (h : assignMode (Lexical.skipGap c) = .ok (mode, d)) :
    hoistAt? (Lexical.skipGap c) = none := by
  unfold assignMode at h
  split at h
  · next sign =>
    unfold assignSign? at sign
    split at sign
    · cases sign
    · cases sign
    · next equals => exact hoistAt?_eq_none (by rw [equals]; rintro _ ⟨⟩; decide)
    · cases sign
  · split at h
    · next sign mode found =>
      have starts := List.find?_some found
      have first : ∀ s ∈ assignSigns, s.1.toList.head?.any startsOther = true := by decide
      exact clear_of_consume? (first _ (List.mem_of_find?_eq_some found)) (by rw [consume?, if_pos starts])
    · cases h

end Cursor

theorem mem_of_takesLetters {letters word : List Char} (h : takesLetters letters word = true) :
    ∀ x ∈ word, x ∈ letters := by
  fun_induction takesLetters letters word with
  | case1 => simp
  | case2 => cases h
  | case3 ls w ws ih =>
    exact List.forall_mem_cons.2 ⟨List.mem_cons_self, fun x hx => List.mem_cons_of_mem w (ih h x hx)⟩
  | case4 l ls w ws other ih => exact fun x hx => List.mem_cons_of_mem l (ih h x hx)

theorem inertName_of_isFunctionKeyword {word : String} (h : isFunctionKeyword word = true) :
    inertName word = true := by
  unfold isFunctionKeyword at h
  split at h
  · have inert : inertName "function" = true := by decide
    exact List.all_eq_true.2 fun x hx => List.all_eq_true.1 inert x (mem_of_takesLetters h x hx)
  · cases h

/-! ## Productions -/

/-- The scan passes over what the reader reads. -/
def Scans (self : ExprReader) : Prop :=
  ∀ term c, (self term c).Yields fun r => r.1.legible = true → c.Skips r.2

section Productions

variable {names : Names} {self : ExprReader}

theorem skips_arguments (hself : Scans self) (tooFew : Nat → Error) (term : Terminator) (read left : Nat)
    (c : Cursor) :
    (arguments self tooFew term read left c).Yields fun r => Expr.allLegible r.1 = true → c.Skips r.2 := by
  induction left generalizing read c with
  | zero => exact yields_pure fun _ => (Even.refl c).skips
  | succ left ih =>
    rw [arguments]
    dsimp only
    split
    · exact (yields_throw (Q := fun _ => False) _).bind fun _ never => never.elim
    · refine (hself _ _).attempt.bind fun r known => ?_
      cases r with
      | none => exact yields_throw _
      | some r =>
        obtain ⟨arg, d⟩ := r
        have first := known _ rfl
        dsimp only at first ⊢
        split
        · refine yields_pure fun legible => ?_
          rw [Expr.allLegible, Bool.and_eq_true] at legible
          exact (even_skipGap c).then (first legible.1)
        · cases comma : (skipGap d).consume? "," with
          | none => exact yields_throw _
          | some e =>
            refine (ih (read + 1) e).bind fun more later => yields_pure fun legible => ?_
            rw [Expr.allLegible, Bool.and_eq_true] at legible
            have clear := clear_of_consume? (by decide) comma
            have passed := ((even_skipGap c).then (first legible.1)).even clear
            exact (passed.trans ((even_skipGap d).trans (even_consume? (by decide) comma))).then (later legible.2)

theorem skips_call (hself : Scans self) (strict : Bool) (term : Terminator) (c : Cursor) :
    (call names self strict term c).Yields fun r => r.1.legible = true → c.Skips r.2 := by
  refine (yields_ofExcept (Q := fun r => bindingName c = .ok r) fun r hr => hr).bind ?_
  rintro ⟨name, d⟩ named
  dsimp only
  cases names.callee? strict name with
  | none => exact yields_fail _
  | some fn =>
    refine (skips_arguments hself _ term _ _ d).bind fun r args => yields_pure fun legible => ?_
    rw [Base.legible, Bool.and_eq_true] at legible
    exact (even_bindingName named legible.1).then (args legible.2)

theorem skips_variableName (c : Cursor) :
    (variableName names c).Yields fun r => r.1.legible = true → c.Skips r.2 := by
  refine (yields_ofExcept (Q := fun r => bindingName c = .ok r) fun r hr => hr).bind ?_
  rintro ⟨name, d⟩ named
  dsimp only
  cases names.value? name with
  | none => exact yields_fail _
  | some v => exact yields_bind fun _ => yields_pure fun legible => (even_bindingName named legible).skips

/-- The entries of an object are in its brace. -/
theorem closes_objectEntries (hself : Scans self) (fuel : Nat) (c : Cursor) :
    (objectEntries self fuel c).Yields fun r => r.1.all inertName = true → Expr.allLegible r.2.1 = true →
      ∀ depth, c.hoistsAt (depth + 1) false = r.2.2.hoistsAt depth (depth == 0) := by
  induction fuel generalizing c with
  | zero => exact yields_throw _
  | succ fuel ih =>
    rw [objectEntries]
    cases close : (skipGap c).consume? "\x7d" with
    | some d =>
      exact yields_pure fun _ _ depth => (even_skipGap c _).trans (hoistsAt_closeBrace close depth)
    | none =>
      refine (yields_ofExcept (Q := fun r => objectKey (skipGap c) = .ok r) fun r hr => hr).bind ?_
      rintro ⟨key, d⟩ keyed
      dsimp only
      cases colon : (skipGap d).consume? ":" with
      | none => exact yields_fail _
      | some e =>
        refine (hself _ _).bind ?_
        rintro ⟨value, f⟩ inner
        have before (legible : inertName key = true) : c.Even (skipGap e) :=
          ((even_skipGap c).trans (even_objectKey keyed legible)).trans
            ((even_skipGap d).trans ((even_consume? (by decide) colon).trans (even_skipGap e)))
        have passed (legible : inertName key = true) (whole : value.legible = true) (depth : Nat) :
            c.hoistsAt (depth + 1) false = (skipGap f).hoistsAt (depth + 1) false := by
          refine (before legible _).trans (Eq.trans ?_ (even_skipGap f _))
          exact inner whole (depth + 1) fun outer => absurd outer depth.succ_ne_zero
        dsimp only
        cases comma : (skipGap f).consume? "," with
        | some g =>
          refine (ih g).bind ?_
          rintro ⟨keys, values, h⟩ more
          refine yields_pure fun keysLegible legible depth => ?_
          rw [List.all_cons, Bool.and_eq_true] at keysLegible
          rw [Expr.allLegible, Bool.and_eq_true] at legible
          refine (passed keysLegible.1 legible.1 depth).trans ?_
          exact (even_consume? (by decide) comma _).trans (more keysLegible.2 legible.2 depth)
        | none =>
          dsimp only
          cases close : (skipGap f).consume? "\x7d" with
          | some g =>
            refine yields_pure fun keysLegible legible depth => ?_
            rw [List.all_cons, Bool.and_eq_true] at keysLegible
            rw [Expr.allLegible, Bool.and_eq_true] at legible
            exact (passed keysLegible.1 legible.1 depth).trans (hoistsAt_closeBrace close depth)
          | none => exact yields_fail _

theorem skips_object (hself : Scans self) (fuel : Nat) (c : Cursor) :
    (object self fuel c).Yields fun r => r.1.legible = true → c.Skips r.2 := by
  unfold object
  cases opened : c.consume? "\x7b" with
  | none => exact yields_fail _
  | some d =>
    refine (closes_objectEntries hself fuel d).bind ?_
    rintro ⟨keys, values, e⟩ entries
    refine yields_pure fun legible => Closes.skips fun depth => ?_
    rw [Base.legible, Bool.and_eq_true] at legible
    exact (hoistsAt_openBrace opened depth).trans (entries legible.1 legible.2 depth)

/-- The elements of an array are in its bracket. -/
theorem closes_arrayElements (hself : Scans self) (fuel : Nat) (c : Cursor) :
    (arrayElements self fuel c).Yields fun r => Expr.allLegible r.1 = true →
      ∀ depth, c.hoistsAt (depth + 1) false = r.2.hoistsAt depth false := by
  induction fuel generalizing c with
  | zero => exact yields_throw _
  | succ fuel ih =>
    rw [arrayElements]
    cases close : (skipGap c).consume? "]" with
    | some d => exact yields_pure fun _ depth => (even_skipGap c _).trans (hoistsAt_closeBracket close depth)
    | none =>
      refine (hself _ _).bind ?_
      rintro ⟨element, d⟩ inner
      have passed (legible : element.legible = true) (depth : Nat) :
          c.hoistsAt (depth + 1) false = (skipGap d).hoistsAt (depth + 1) false := by
        refine (even_skipGap c _).trans (Eq.trans ?_ (even_skipGap d _))
        exact inner legible (depth + 1) fun outer => absurd outer depth.succ_ne_zero
      dsimp only
      cases comma : (skipGap d).consume? "," with
      | some e =>
        refine (ih e).bind fun more others => yields_pure fun legible depth => ?_
        rw [Expr.allLegible, Bool.and_eq_true] at legible
        refine (passed legible.1 depth).trans ?_
        exact (even_consume? (by decide) comma _).trans (others legible.2 depth)
      | none =>
        dsimp only
        cases close : (skipGap d).consume? "]" with
        | some e =>
          refine yields_pure fun legible depth => ?_
          rw [Expr.allLegible, Bool.and_eq_true] at legible
          exact (passed legible.1 depth).trans (hoistsAt_closeBracket close depth)
        | none => exact yields_fail _

theorem skips_array (hself : Scans self) (fuel : Nat) (c : Cursor) :
    (array self fuel c).Yields fun r => r.1.legible = true → c.Skips r.2 := by
  unfold array
  cases opened : c.consume? "[" with
  | none => exact yields_fail _
  | some d =>
    refine (closes_arrayElements hself fuel d).bind fun r elements => yields_pure fun legible => ?_
    exact Even.skips fun depth => (hoistsAt_openBracket opened depth).trans (elements legible depth)

/-- An accessor begins with a point or a bracket, so none stands where a declaration does. -/
theorem continues_accessors (hself : Scans self) (fuel : Nat) (c : Cursor) :
    (accessors self fuel c).Yields fun r => Accessor.allLegible r.1 = true → c.Continues r.2 := by
  induction fuel generalizing c with
  | zero => exact yields_throw _
  | succ fuel ih =>
    have nothing : (pure ([], c) : Reading (List Accessor × Cursor)).Yields
        fun r => Accessor.allLegible r.1 = true → c.Continues r.2 := yields_pure fun _ => .refl c
    rw [accessors.eq_def]
    dsimp only
    split
    · next point =>
      have clear : hoistAt? (skipGap c) = none :=
        hoistAt?_skipGap_eq_none (by rw [point]; rintro _ ⟨⟩; decide)
      split
      · exact nothing
      · next name d named =>
        refine (ih d).bind fun more later => yields_pure fun legible => ?_
        rw [Accessor.allLegible, Bool.and_eq_true] at legible
        have start : c.Even c.next := even_next (by rw [point]; rintro _ ⟨⟩; rfl)
        have passed := (start.trans (even_identifier named legible.1)).skips
        exact (passed.continues clear).trans (later legible.2)
    · next bracket =>
      have clear : hoistAt? (skipGap c) = none :=
        hoistAt?_skipGap_eq_none (by rw [bracket]; rintro _ ⟨⟩; decide)
      refine (hself _ _).attempt.bind fun r known => ?_
      cases r with
      | none => exact nothing
      | some r =>
        obtain ⟨index, d⟩ := r
        have inner := known _ rfl
        dsimp only at inner ⊢
        cases close : (skipGap d).consume? "]" with
        | none => exact nothing
        | some e =>
          refine (ih e).bind fun more later => yields_pure fun legible => ?_
          rw [Accessor.allLegible, Bool.and_eq_true] at legible
          have opened : c.consume? "[" = some c.next := by
            rw [consume?, startsWith, bracket]
            rfl
          have passed : c.Even e := fun depth => by
            rw [hoistsAt_openBracket opened, even_skipGap c.next,
              inner legible.1 (depth + 1) (absurd · depth.succ_ne_zero), even_skipGap d, hoistsAt_closeBracket close]
          exact (passed.skips.continues clear).trans (later legible.2)
    · exact nothing

theorem skips_literalBase (c : Cursor) :
    (literalBase c).Yields fun r => r.1.legible = true → c.Skips r.2 := by
  refine yields_ofExcept (Q := fun r : Base × Cursor => r.1.legible = true → c.Skips r.2) fun r hr _ => ?_
  cases read : literal c with
  | error e => rw [read] at hr; cases hr
  | ok l =>
    rw [read] at hr
    cases hr
    exact (even_literal read).skips

theorem skips_functionBase (term : Terminator) (c : Cursor) :
    (functionBase term c).Yields fun r => r.1.legible = true → c.Skips r.2 := by
  refine yields_ofExcept (Q := fun r : Base × Cursor => r.1.legible = true → c.Skips r.2) fun r hr legible => ?_
  cases read : functionLiteral term c with
  | error e => rw [read] at hr; cases hr
  | ok f =>
    rw [read] at hr
    cases hr
    exact skips_functionLiteral read legible

theorem skips_implicitBase (term : Terminator) (c : Cursor) :
    (implicitBase term c).Yields fun r => r.1.legible = true → c.Skips r.2 :=
  yields_ofExcept (Q := fun r : Base × Cursor => r.1.legible = true → c.Skips r.2)
    fun _ read legible => (even_implicitString read legible).skips

theorem skips_base (hself : Scans self) (fuel : Nat) (term : Terminator) (c : Cursor) :
    (base names self fuel term c).Yields fun r => r.1.legible = true → c.Skips r.2 := by
  refine yields_firstOf fun p hp => ?_
  simp only [List.mem_cons, List.not_mem_nil, or_false] at hp
  rcases hp with rfl | rfl | rfl | rfl | rfl | rfl | rfl
  · exact skips_call hself true term c
  · exact skips_variableName c
  · exact skips_literalBase c
  · exact skips_object hself fuel c
  · exact skips_array hself fuel c
  · exact skips_functionBase term c
  · exact skips_implicitBase term c

theorem skips_atom (hself : Scans self) (fuel : Nat) (term : Terminator) (c : Cursor) :
    (atom names self fuel term c).Yields fun r => r.1.legible = true → c.Skips r.2 := by
  refine (skips_base hself fuel term c).bind ?_
  rintro ⟨b, d⟩ base
  refine (continues_accessors hself fuel d).bind ?_
  rintro ⟨accs, e⟩ behind
  refine yields_pure fun legible => ?_
  rw [Expr.legible, Bool.and_eq_true] at legible
  exact behind legible.2 c (base legible.1)

theorem skips_operand (hself : Scans self) (fuel : Nat) (term : Terminator) (c : Cursor) :
    (operand names self fuel term c).Yields fun r => r.2.1.legible = true → c.Skips r.2.2 := by
  have whole : (atom names self fuel term c).Yields fun r => r.1.legible = true → c.Skips r.2 :=
    skips_atom hself fuel term c
  unfold operand
  cases prefixed : unaryRuns c with
  | mk runs d =>
    cases runs with
    | nil => exact whole.bind fun _ hr => yields_pure hr
    | cons run runs =>
      refine (skips_atom hself fuel term d).attempt.bind fun r known => ?_
      cases r with
      | none => exact whole.bind fun _ hr => yields_pure hr
      | some r => exact yields_pure fun legible => (even_unaryRuns prefixed).then (known r rfl legible)

/-- An operator is no keyword, so none stands where a declaration does. -/
theorem clear_of_binaryOperator {c d : Cursor} {op : BinaryOp} (h : binaryOperator (skipGap c) = .ok (op, d)) :
    hoistAt? (skipGap c) = none := by
  unfold binaryOperator at h
  split at h
  · cases h
  · next op found =>
    have starts := List.find?_some found
    have first : op.token.toList.head?.any startsOther = true := by cases op <;> decide
    exact clear_of_consume? first (by rw [consume?, if_pos starts])

theorem continues_operations (hself : Scans self) (fuel : Nat) (term : Terminator) (left : Nat) {f : Fold}
    (balanced : f.Balanced) (c : Cursor) :
    (operations names self fuel term left f c).Yields fun r =>
      r.1.Balanced ∧ (r.1.All (·.legible = true) → f.All (·.legible = true) ∧ c.Continues r.2) := by
  induction left generalizing f c with
  | zero => exact yields_throw _
  | succ left ih =>
    have nothing : (pure (f, c) : Reading (Fold × Cursor)).Yields fun r =>
        r.1.Balanced ∧ (r.1.All (·.legible = true) → f.All (·.legible = true) ∧ c.Continues r.2) :=
      yields_pure ⟨balanced, fun legible => ⟨legible, .refl c⟩⟩
    rw [operations]
    dsimp only [measureGap]
    split
    · exact nothing
    · cases found : binaryOperator (skipGap c) with
      | error e => exact nothing
      | ok r =>
        obtain ⟨op, d⟩ := r
        refine (skips_operand hself fuel term (skipGap d)).attempt.bind fun r known => ?_
        cases r with
        | none => exact nothing
        | some r =>
          obtain ⟨runs, e, g⟩ := r
          have operand := known _ rfl
          dsimp only at operand ⊢
          refine (fun l a l' run => ?_ : Reading.Yields _ _)
          obtain ⟨balanced, kept⟩ := ih (balanced.link op _ runs e) g l a l' run
          refine ⟨balanced, fun legible => ?_⟩
          obtain ⟨linked, behind⟩ := kept legible
          rw [Fold.all_pushOperand, Fold.all_pushBinary Expr.operandwise_legible] at linked
          have passed : c.Even (skipGap d) :=
            (even_skipGap c).trans ((even_operator (gap_skipGap c) found).trans (even_skipGap d))
          have joined := (passed.then (operand linked.1)).continues (clear_of_binaryOperator found)
          exact ⟨linked.2, joined.trans behind⟩

theorem scans_expressionWith (hself : Scans self) (fuel : Nat) : Scans (expressionWith names self fuel) := by
  intro term c
  refine (skips_operand hself fuel term c).bind ?_
  rintro ⟨runs, e, d⟩ first
  refine (continues_operations hself fuel term fuel (Fold.balanced_operand runs e) d).bind ?_
  rintro ⟨f, g⟩ ⟨balanced, kept⟩
  refine yields_pure fun legible => ?_
  obtain ⟨operand, behind⟩ := kept ((balanced.headD_iff Expr.operandwise_legible e).1 legible)
  rw [Fold.all_pushOperand] at operand
  exact behind c (first operand.1)

end Productions

/-! ## Expressions -/

theorem scans_expressionAt (names : Names) (n : Nat) : Scans (expressionAt names n) := by
  induction n with
  | zero => exact fun term c => yields_throw _
  | succ n ih => exact scans_expressionWith ih n

theorem scans_expression (names : Names) : Scans (expression names) :=
  fun term c => scans_expressionAt names (c.rest.length + 1) term c

theorem skips_readCall (names : Names) (strict : Bool) (term : Terminator) (c : Cursor) :
    (readCall names strict term c).Yields fun r => r.1.legible = true → c.Skips r.2 :=
  skips_call (scans_expressionAt names _) strict term c

theorem continues_readAccessors (names : Names) (c : Cursor) :
    (readAccessors names c).Yields fun r => Accessor.allLegible r.1 = true → c.Continues r.2 :=
  continues_accessors (scans_expressionAt names _) _ c

/-! ## Branches -/

section Branches

variable {names : Names} {word : String} (inert : inertName word = true)

include inert

/-- A branch ends with the brace of its body. -/
theorem ends_guarded (c : Cursor) :
    (guarded names word c).Yields fun r => r.1.legible = true → c.Ends r.2 := by
  unfold guarded
  cases keyword : keyword? word c with
  | none => exact yields_fail _
  | some d =>
    refine (scans_expression names _ _).bind ?_
    rintro ⟨tree, e⟩ guard
    refine (yields_ofExcept (Q := fun r => block (skipGap e) = .ok r) fun r hr => hr).bind ?_
    rintro ⟨body, f⟩ read
    refine yields_pure fun legible => ?_
    rw [Branch.legible, Bool.and_eq_true] at legible
    have start := (even_keyword? inert keyword).trans (even_skipGap d)
    have passed := (start.then (guard legible.1)).even (clear_of_block read)
    exact (passed.trans (even_skipGap e)).ends (closes_block read legible.2).ends

/-- No branch begins where a declaration does. -/
theorem follows_elseBranches (fuel : Nat) (c : Cursor) :
    (elseBranches names word fuel c).Yields fun r => r.1.all Branch.legible = true →
      c.hoistsAt 0 true = r.2.hoistsAt 0 true := by
  induction fuel generalizing c with
  | zero => exact yields_throw _
  | succ fuel ih =>
    have nothing : (pure ([], c) : Reading (List Branch × Cursor)).Yields fun r =>
        r.1.all Branch.legible = true → c.hoistsAt 0 true = r.2.hoistsAt 0 true := yields_pure fun _ => rfl
    rw [elseBranches]
    cases keyword : keyword? "else" (skipGap c) with
    | none => exact nothing
    | some d =>
      have passed : c.hoistsAt 0 true = (skipGap d).hoistsAt 0 false := by
        rw [hoistsAt_clear (clear_of_keyword? (by decide) keyword), even_skipGap c,
          even_keyword? (by decide) keyword, even_skipGap d]
      refine (ends_guarded inert (skipGap d)).attempt.bind fun r known => ?_
      cases r with
      | some r =>
        refine (ih r.2).bind fun more later => yields_pure fun legible => ?_
        rw [List.all_cons, Bool.and_eq_true] at legible
        exact passed.trans ((known r rfl legible.1).trans (later legible.2))
      | none =>
        dsimp only
        cases read : block (skipGap d) with
        | error e => exact nothing
        | ok r =>
          refine yields_pure fun legible => ?_
          rw [List.all_cons, Bool.and_eq_true, Branch.legible, Bool.and_eq_true] at legible
          exact passed.trans (closes_block read legible.1.2).ends

theorem ends_branches (c : Cursor) :
    (branches names word c).Yields fun r => r.1.all Branch.legible = true → c.Ends r.2 := by
  refine (ends_guarded inert c).bind ?_
  rintro ⟨b, d⟩ first
  refine (follows_elseBranches inert _ d).bind ?_
  rintro ⟨bs, e⟩ others
  refine yields_pure fun legible => ?_
  rw [List.all_cons, Bool.and_eq_true] at legible
  exact (first legible.1).trans (others legible.2)

end Branches

/-! ## The forms -/

section Forms

variable (ctx : StatementContext) (c : Cursor)

/-- A value and the end of the statement behind it. -/
theorem ends_value {f : Expr → Bool → Statement} {b : Cursor}
    (parts : ∀ e debug, (f e debug).legible = true → e.legible = true ∧ b.Even c) :
    (do
        let (value, d) ← expression ctx.names Terminator.never c
        let (debug, d) ← ctx.finish d
        pure (f value debug, d) : Reading (Statement × Cursor)).Yields
      fun r => r.1.legible = true → b.Ends r.2 := by
  refine (scans_expression ctx.names _ c).bind ?_
  rintro ⟨value, d⟩ passed
  refine (ends_finish ctx d).bind ?_
  rintro ⟨debug, e⟩ ⟨clear, ended⟩
  refine yields_pure fun legible => ?_
  obtain ⟨whole, before⟩ := parts value debug legible
  exact before.ends (((passed whole).even clear).ends ended)

theorem ends_declarationForm :
    (declarationForm ctx c).Yields fun r => r.1.legible = true → c.Ends r.2 := by
  refine (yields_ofExcept (Q := fun r => declarationHeader c = .ok r) fun r hr => hr).bind ?_
  rintro ⟨header, d⟩ headed
  refine ends_value ctx d (f := .declaration header) fun e debug legible => ?_
  rw [Statement.legible, Bool.and_eq_true] at legible
  exact ⟨legible.2, even_declarationHeader headed legible.1⟩

theorem ends_assignmentForm :
    (assignmentForm ctx c).Yields fun r => r.1.legible = true → c.Ends r.2 := by
  refine (yields_ofExcept (Q := fun r => bindingName c = .ok r) fun r hr => hr).bind ?_
  rintro ⟨name, d⟩ named
  refine (continues_readAccessors ctx.names d).bind ?_
  rintro ⟨accs, e⟩ reached
  refine (yields_ofExcept (Q := fun r => assignMode (skipGap e) = .ok r) fun r hr => hr).bind ?_
  rintro ⟨mode, f⟩ signed
  have before {value : Option Expr} {debug : Bool}
      (legible : (Statement.assignment ⟨name, accs, mode, value⟩ debug).legible = true) : c.Even f := by
    rw [Statement.legible, Bool.and_eq_true, Bool.and_eq_true] at legible
    have accessed := reached legible.1.2 c (even_bindingName named legible.1.1).skips
    exact ((accessed.even (clear_of_assignMode signed)).trans (even_skipGap e)).trans (even_assignMode signed)
  cases mode with
  | step op =>
    refine (ends_finish ctx f).bind ?_
    rintro ⟨debug, g⟩ ⟨-, ended⟩
    exact yields_pure fun legible => (before legible).ends ended
  | plain | compound op =>
    refine ends_value ctx (skipGap f) (f := fun value => .assignment ⟨name, accs, _, some value⟩)
      fun value debug legible => ⟨?_, (before legible).trans (even_skipGap f)⟩
    rw [Statement.legible, Bool.and_eq_true] at legible
    exact legible.2

theorem ends_blockForm : (blockForm c).Yields fun r => r.1.legible = true → c.Ends r.2 := by
  refine (yields_ofExcept (Q := fun r => block c = .ok r) fun r hr => hr).bind ?_
  rintro ⟨body, d⟩ read
  exact yields_pure fun legible => (closes_block read legible).ends

theorem ends_functionForm :
    (functionForm ctx c).Yields fun r => r.1.legible = true → c.Ends r.2 := by
  refine (yields_ofExcept (Q := fun r => identifier Terminator.name c = .ok r) fun r hr => hr).bind ?_
  rintro ⟨word, d⟩ worded
  dsimp only
  split
  · exact yields_fail_bind _ _
  · next introduced =>
    split
    · exact yields_fail _
    · next gapped =>
      cases gapped
      refine (yields_ofExcept (Q := fun r => bindingName (skipGap d) = .ok r) fun r hr => hr).bind ?_
      rintro ⟨name, e⟩ named
      refine (yields_ofExcept (Q := fun r => params e = .ok r) fun r hr => hr).bind ?_
      rintro ⟨ps, f⟩ given
      dsimp only
      split
      · exact yields_fail _
      · next g arrow =>
        refine (yields_ofExcept (Q := fun r => functionBody Terminator.never g = .ok r) fun r hr => hr).bind ?_
        rintro ⟨body, h⟩ read
        have start : inertName word = true := inertName_of_isFunctionKeyword (by simpa using introduced)
        have before (legible : (Statement.function ⟨name, ps, body, c.pos.line⟩).legible = true) :
            c.Even g ∧ body.legible = true := by
          rw [Statement.legible, Function.legible, Bool.and_eq_true, Bool.and_eq_true] at legible
          have headed := (even_identifier worded start).trans (even_skipGap d)
          have listed := (headed.trans (even_bindingName named legible.1.1)).trans (even_params given legible.1.2)
          exact ⟨(listed.trans (even_skipGap f)).trans (even_consume? (by decide) arrow), legible.2⟩
        dsimp only
        split
        · next isBlock =>
          have closed (legible : (Statement.function ⟨name, ps, body, c.pos.line⟩).legible = true) : c.Ends h := by
            obtain ⟨start, whole⟩ := before legible
            obtain ⟨_, _, rfl, closes⟩ | ⟨_, _, rfl, -⟩ := scanned_functionBody read whole
            · exact start.ends closes.ends
            · cases isBlock
          split
          · next debug i ended =>
            refine yields_pure fun legible => ?_
            obtain ⟨clear, ends⟩ := ends_statementEnd ended
            rw [skipGap_skipGap] at clear
            exact ((closed legible).trans (hoistsAt_clear clear 0 true)).trans ((even_skipGap h).ends ends)
          · exact yields_pure closed
        · refine (ends_finish ctx h).bind ?_
          rintro ⟨debug, i⟩ ⟨clear, ended⟩
          refine yields_pure fun legible => ?_
          obtain ⟨start, whole⟩ := before legible
          exact ((start.then (skips_functionBody read whole)).even clear).ends ended

theorem ends_returnForm :
    (returnForm ctx c).Yields fun r => r.1.legible = true → c.Ends r.2 := by
  unfold returnForm
  cases keyword : keyword? "return" c with
  | none => exact yields_fail _
  | some d =>
    have start : c.Even d := even_keyword? (by decide) keyword
    dsimp only
    split
    · refine (ends_finish ctx d).bind ?_
      rintro ⟨debug, e⟩ ⟨-, ended⟩
      exact yields_pure fun _ => start.ends ended
    · exact ends_value ctx (skipGap d) (f := fun value => .giveBack (some value))
        fun value debug legible => ⟨legible, start.trans (even_skipGap d)⟩

theorem ends_callForm :
    (callForm ctx c).Yields fun r => r.1.legible = true → c.Ends r.2 := by
  refine (skips_readCall ctx.names false _ c).bind ?_
  rintro ⟨b, d⟩ base
  refine (continues_readAccessors ctx.names d).bind ?_
  rintro ⟨accs, e⟩ behind
  refine (ends_finish ctx e).bind ?_
  rintro ⟨debug, f⟩ ⟨clear, ended⟩
  refine yields_pure fun legible => ?_
  rw [Statement.legible, Expr.legible, Bool.and_eq_true] at legible
  exact ((behind legible.2 c (base legible.1)).even clear).ends ended

theorem ends_expressionForm :
    (expressionForm ctx c).Yields fun r => r.1.legible = true → c.Ends r.2 :=
  ends_value ctx c (f := .expression) fun _ _ legible => ⟨legible, .refl c⟩

theorem ends_form {form : Form} (h : form ∈ forms ctx) :
    (form c).Yields fun r => r.1.legible = true → c.Ends r.2 := by
  simp only [forms, List.mem_cons, List.not_mem_nil, or_false] at h
  rcases h with rfl | rfl | rfl | rfl | rfl | rfl | rfl | rfl | rfl
  · exact ends_declarationForm ctx c
  · exact ends_assignmentForm ctx c
  · exact ends_blockForm c
  · exact (ends_branches (by decide) c).bind fun r ended => yields_pure ended
  · exact (ends_branches (by decide) c).withNotes.bind fun r ended => yields_pure ended
  · exact ends_functionForm ctx c
  · exact ends_returnForm ctx c
  · exact ends_callForm ctx c
  · exact ends_expressionForm ctx c

end Forms

/-- A statement that is legible leaves the scan where the next statement may start. -/
theorem ends_statement {ctx : StatementContext} {c d : Cursor} {stmt : Statement}
    (read : statement ctx c = .ok (stmt, d)) (legible : stmt.legible = true) : c.Ends d :=
  of_statement (Q := fun r => r.1.legible = true → c.Ends r.2) (fun _ known => ends_form ctx c known) read legible

end Gapscript
