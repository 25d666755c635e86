import Gapscript.Proofs.Reading.Mirror

/-!
# Expressions read in a source and alone

The base of an atom is the first production that matches. Behind a call, a variable or a literal the choice is
the same when the text stands alone (`misses_call`, `misses_variableName`, `Tallies.misses`). An array or an
object that does not match in the source may match then, but what is read in its place is a text nobody quoted
that begins like one (`not_worded_of_lead`). With that, what is read in the source of a text and ends in front of
the rest is read when the text stands alone, by induction on the budget (`mirrors_expressionAt`).
-/

namespace Gapscript

open Lexical Cursor Reading

namespace Behind

variable {B : Behind} {names : Names} {n : Nat} {term term' : Terminator} {v : Text} {x : Char} {p : Position}
  {c c' d d' : Cursor} {l l' : List String} {fuel : Nat}

/-! ## Characters that begin something else -/

section Leads

variable {t : Text}

theorem lead_stops (lead : x ∈ leads) : Terminator.isNameStop x = true ∧ isLayout x = false ∧ x ≠ '/' ∧ x ≠ '=' ∧
    x ≠ '\\' ∧ isQuote x = false ∧ x.isDigit = false ∧ x ∉ wordStarts := by
  have all : ∀ x ∈ leads, Terminator.isNameStop x = true ∧ isLayout x = false ∧ x ≠ '/' ∧ x ≠ '=' ∧
      x ≠ '\\' ∧ isQuote x = false ∧ x.isDigit = false ∧ x ∉ wordStarts := by decide
  exact all x lead

theorem bindingName_lead (lead : x ∈ leads) : ∃ e, bindingName ⟨x :: t, p⟩ = .error e := by
  unfold bindingName
  dsimp only
  rw [(lead_stops lead).1, Bool.true_or, Bool.true_or, if_pos rfl]
  exact ⟨_, rfl⟩

theorem literal_lead (lead : x ∈ leads) : ∃ e, literal ⟨x :: t, p⟩ = .error e := by
  obtain ⟨-, -, -, -, -, quote, digit, start⟩ := lead_stops lead
  exact ⟨_, literal_eq_error quote digit start t p⟩

theorem functionLiteral_lead (lead : x ∈ leads) : ∃ e, functionLiteral term ⟨x :: t, p⟩ = .error e := by
  obtain ⟨-, layout, slash, equals, -⟩ := lead_stops lead
  obtain ⟨e, named⟩ := bindingName_lead (t := t) (p := p) lead
  have starts : startsWith ⟨x :: t, p⟩ "=>" = false := by
    have apart : ('=' == x) = false := beq_eq_false_iff_ne.mpr (Ne.symm equals)
    exact (congrArg (· && List.isPrefixOf ['>'] t) apart).trans rfl
  have none : params ⟨x :: t, p⟩ = .error e := by
    rw [params, paramsFrom, skipGap_solid layout fun same => absurd same slash]
    dsimp only
    rw [starts, if_neg Bool.false_ne_true, named]
  exact ⟨e, by rw [functionLiteral_eq, none]; rfl⟩

theorem not_worded_of_implicitString (lead : x ∈ leads) {b : Base}
    (read : implicitString term ⟨x :: t, p⟩ = .ok (b, d)) : ¬b.worded = true := by
  obtain ⟨-, -, -, -, escape, -⟩ := lead_stops lead
  unfold implicitString chunk at read
  dsimp only at read
  rw [unescapeUntil_plain escape] at read
  split at read
  · cases read
  · by_cases stops : Terminator.statement.or term (x :: t) = true
    · rw [if_pos stops] at read
      cases read
    · rw [if_neg stops] at read
      change implied ⟨x :: t, p⟩ _ (x :: (unescapeUntil (Terminator.statement.or term) t).1) = _ at read
      generalize (unescapeUntil (Terminator.statement.or term) t).1 = s at read
      obtain ⟨some, rfl, -⟩ := implied_eq_ok_iff.1 read
      obtain ⟨w, whole, -⟩ := Text.exists_of_trimLine (x :: s)
      obtain ⟨y, u, begins⟩ := List.exists_cons_of_ne_nil some
      rw [begins, List.cons_append] at whole
      rw [begins, Base.worded, String.toList_ofList, ← (List.cons.inj whole).1]
      have inside : leads.contains x = true := List.contains_iff_mem.mpr lead
      rw [List.head?_cons, Option.all_some, inside]
      exact Bool.false_ne_true

end Leads

/-! ## Bases -/

section Failures

variable {α β : Type} {q : Reading α} {f : α → Reading β} {e : Error}

theorem error_of_bind (run : (q >>= f) l = .error e l') :
    q l = .error e l' ∨ ∃ a m, q l = .ok a m ∧ f a m = .error e l' := by
  cases first : q l with
  | ok a m => exact .inr ⟨a, m, rfl, (bind_of_ok first).symm.trans run⟩
  | error e' m =>
    rw [bind_of_error first] at run
    cases run
    exact .inl rfl

/-- A reading that is tried is no mismatch. -/
theorem not_isMismatch_of_attempt (run : q.attempt l = .error e l') : e.isMismatch = false := by
  unfold Reading.attempt at run
  cases first : q l with
  | ok a m =>
    rw [first] at run
    cases run
  | error e' m =>
    rw [first] at run
    dsimp only at run
    split at run
    · cases run
    · next final =>
      cases run
      exact Bool.eq_false_iff.mpr final

/-- With too few arguments a call is no mismatch. -/
theorem not_isMismatch_of_arguments {self : ExprReader} {tooFew : Nat → Error}
    (few : ∀ k, (tooFew k).isMismatch = false) {read left : Nat}
    (run : arguments self tooFew term read left c l = .error e l') : e.isMismatch = false := by
  induction left generalizing read c l with
  | zero => cases run
  | succ left ih =>
    rw [arguments] at run
    dsimp only at run
    split at run
    · cases run
      exact few read
    · rcases error_of_bind run with tried | ⟨r, m, -, rest⟩
      · exact not_isMismatch_of_attempt tried
      · cases r with
        | none =>
          cases rest
          exact few read
        | some r =>
          dsimp only at rest
          split at rest
          · cases rest
          · cases comma : (skipGap r.2).consume? "," with
            | none =>
              rw [comma] at rest
              cases rest
              exact few (read + 1)
            | some f =>
              rw [comma] at rest
              rcases error_of_bind rest with later | ⟨more, m, -, last⟩
              · exact ih later
              · cases last

end Failures

/-- What is not a call in the source is none when the text stands alone. -/
theorem misses_call {strict : Bool} {e : ParseError}
    (run : call names (expressionAt names n) strict term ⟨x :: v ++ B.text, p⟩ l = .error (.mismatch e) l') :
    (call names (expressionAt names n) strict term' ⟨x :: v, p⟩).Misses := by
  unfold call at run ⊢
  rw [bindingName_cut] at run
  cases named : bindingName ⟨x :: v, p⟩ with
  | error e => exact Misses.bind (misses_ofExcept rfl)
  | ok r =>
    obtain ⟨name, f⟩ := r
    rw [named] at run
    refine Settles.bind_misses (settles_ofExcept rfl) ?_
    rcases error_of_bind run with none | ⟨r, m, read, rest⟩
    · cases none
    · cases read
      dsimp only at rest ⊢
      cases callee : names.callee? strict name with
      | none => exact misses_fail _
      | some fn =>
        rw [callee] at rest
        rcases error_of_bind rest with short | ⟨r, m, -, last⟩
        · have other : (Error.mismatch e).isMismatch = false :=
            not_isMismatch_of_arguments (fun k => rfl) short
          cases other
        · cases last

theorem misses_variableName {e : ParseError}
    (run : variableName names ⟨x :: v ++ B.text, p⟩ l = .error (.mismatch e) l') :
    (variableName names ⟨x :: v, p⟩).Misses := by
  unfold variableName at run ⊢
  rw [bindingName_cut] at run
  cases named : bindingName ⟨x :: v, p⟩ with
  | error e => exact Misses.bind (misses_ofExcept rfl)
  | ok r =>
    obtain ⟨name, f⟩ := r
    rw [named] at run
    refine Settles.bind_misses (settles_ofExcept rfl) ?_
    rcases error_of_bind run with none | ⟨r, m, read, rest⟩
    · cases none
    · cases read
      dsimp only at rest ⊢
      cases value : names.value? name with
      | none => exact misses_fail _
      | some w =>
        rw [value] at rest
        cases rest

theorem settles_variableName (quiet : B.Quiet (x :: v)) {b : Base}
    (run : variableName names ⟨x :: v ++ B.text, p⟩ l = .ok (b, d) l') :
    ∃ d', B.Meets d d' ∧ (variableName names ⟨x :: v, p⟩).Settles (b, d') := by
  unfold variableName at run ⊢
  rw [bindingName_cut] at run
  obtain ⟨⟨name, e⟩, m, named, rest⟩ := ok_of_bind run
  have read := ok_of_ofExcept named
  cases alone : bindingName ⟨x :: v, p⟩ with
  | error e =>
    rw [alone] at read
    cases read
  | ok r =>
    rw [alone] at read
    cases read
    dsimp only at rest
    cases value : names.value? r.1 with
    | none =>
      rw [value] at rest
      cases rest
    | some w =>
      rw [value] at rest
      cases rest
      refine ⟨r.2, meets_onto (quiet.suffix (passes_bindingName alone).reaches.suffix), ?_⟩
      refine (settles_ofExcept rfl).bind ?_
      dsimp only
      rw [value]
      exact fun l => ⟨_, rfl⟩

/-- The last argument has taken all accessors and operations. -/
theorem spent_of_arguments {tooFew : Nat → Error} {read left : Nat} (some : left ≠ 0) {args : List Expr}
    (run : arguments (expressionAt names n) tooFew term read left c l = .ok (args, d) l') :
    Unaccessed names d ∧ Unoperated names term d := by
  induction left generalizing read c l args with
  | zero => exact absurd rfl some
  | succ left ih =>
    obtain ⟨-, arg, e, m, first, rest⟩ := step_of_arguments run
    rcases rest with ⟨last, -, rfl⟩ | ⟨more, f, args, -, -, later⟩
    · rw [if_pos last] at first
      exact spent_of_expressionAt first
    · exact ih more later

theorem settles_call (hself : B.Mirrors (expressionAt names n)) (fits : term.Fits term') (quiet : B.Quiet (x :: v))
    {strict : Bool} {b : Base}
    (run : call names (expressionAt names n) strict term ⟨x :: v ++ B.text, p⟩ l = .ok (b, d) l')
    (ahead : B.Ahead d) (ends : Unaccessed names d → Unoperated names term d → B.Ends d) (worded : b.worded = true) :
    ∃ d', B.Meets d d' ∧ (call names (expressionAt names n) strict term' ⟨x :: v, p⟩).Settles (b, d') := by
  unfold call at run ⊢
  rw [bindingName_cut] at run
  obtain ⟨⟨name, e⟩, m, named, rest⟩ := ok_of_bind run
  have read := ok_of_ofExcept named
  cases alone : bindingName ⟨x :: v, p⟩ with
  | error e =>
    rw [alone] at read
    cases read
  | ok r =>
    rw [alone] at read
    cases read
    dsimp only at rest
    cases callee : names.callee? strict r.1 with
    | none =>
      rw [callee] at rest
      cases rest
    | some fn =>
      rw [callee] at rest
      obtain ⟨⟨args, f⟩, m, given, last⟩ := ok_of_bind rest
      cases last
      rw [Base.worded] at worded
      have at_name := meets_onto (quiet.suffix (passes_bindingName alone).reaches.suffix)
      obtain ⟨d', at_d, settles⟩ := settles_arguments hself fits at_name given ahead
        (fun some => (spent_of_arguments some given).elim ends) worded
      refine ⟨d', at_d, (settles_ofExcept rfl).bind ?_⟩
      dsimp only
      rw [callee]
      exact settles.bind (settles_pure _)

section Alternatives

variable {P : Cursor → Prop} {α : Type} {r r' : Except ParseError (α × Cursor)} {self : ExprReader} {b : Base}

theorem Tallies.settles (tallies : B.Tallies P r r') {a : α} (run : Reading.ofExcept r l = .ok (a, d) l') (ends : P d) :
    ∃ d', B.Meets d d' ∧ (Reading.ofExcept r').Settles (a, d') := by
  obtain ⟨d', alone, meets⟩ := tallies.ok (ok_of_ofExcept run) ends
  exact ⟨d', meets, settles_ofExcept alone⟩

theorem Tallies.misses (tallies : B.Tallies P r r') {e : Error} (run : Reading.ofExcept r l = .error e l') :
    (Reading.ofExcept r').Misses := by
  cases read : r with
  | ok a =>
    rw [read] at run
    cases run
  | error e =>
    obtain ⟨e', alone⟩ := tallies.error read
    exact misses_ofExcept alone

theorem tallies_literalBase (quiet : B.Quiet (x :: v)) :
    B.Tallies B.Ahead ((literal ⟨x :: v ++ B.text, p⟩).map fun (v, d) => (Base.literal v false, d))
      ((literal ⟨x :: v, p⟩).map fun (v, d) => (Base.literal v false, d)) :=
  (tallies_literal quiet).map fun v => Base.literal v false

theorem tallies_functionBase (fits : term.Fits term') (quiet : B.Quiet v) :
    B.Tallies B.Lands ((functionLiteral term ⟨v ++ B.text, p⟩).map fun (f, d) => (Base.function f, d))
      ((functionLiteral term' ⟨v, p⟩).map fun (f, d) => (Base.function f, d)) :=
  (tallies_functionLiteral fits quiet).map Base.function

theorem misses_object {t : Text} (other : x ≠ '\x7b') : (object self fuel ⟨x :: t, p⟩).Misses := by
  unfold object
  rw [show Cursor.consume? ⟨x :: t, p⟩ "\x7b" = none from consume?_eq_none rfl (Ne.symm other) p]
  exact misses_fail _

theorem misses_array {t : Text} (other : x ≠ '[') : (array self fuel ⟨x :: t, p⟩).Misses := by
  unfold array
  rw [show Cursor.consume? ⟨x :: t, p⟩ "[" = none from consume?_eq_none rfl (Ne.symm other) p]
  exact misses_fail _

theorem settles_object (hself : B.Mirrors (expressionAt names n)) (quiet : B.Quiet (x :: v))
    (run : object (expressionAt names n) fuel ⟨x :: v ++ B.text, p⟩ l = .ok (b, d) l') (ahead : B.Ahead d)
    (worded : b.worded = true) :
    ∃ d', B.Meets d d' ∧ (object (expressionAt names n) fuel ⟨x :: v, p⟩).Settles (b, d') := by
  unfold object at run ⊢
  rw [consume?_cut (by decide)] at run
  cases opened : Cursor.consume? ⟨x :: v, p⟩ "\x7b" with
  | none =>
    rw [opened] at run
    cases run
  | some e =>
    rw [opened] at run
    obtain ⟨⟨keys, values, f⟩, m, read, last⟩ := ok_of_bind run
    cases last
    obtain ⟨d', meets, settles⟩ := settles_objectEntries hself
      (meets_onto (quiet.suffix (reaches_consume? opened).suffix)) read ahead (by rwa [Base.worded] at worded)
    exact ⟨d', meets, settles.bind (settles_pure _)⟩

theorem settles_array (hself : B.Mirrors (expressionAt names n)) (quiet : B.Quiet (x :: v))
    (run : array (expressionAt names n) fuel ⟨x :: v ++ B.text, p⟩ l = .ok (b, d) l') (ahead : B.Ahead d)
    (worded : b.worded = true) :
    ∃ d', B.Meets d d' ∧ (array (expressionAt names n) fuel ⟨x :: v, p⟩).Settles (b, d') := by
  unfold array at run ⊢
  rw [consume?_cut (by decide)] at run
  cases opened : Cursor.consume? ⟨x :: v, p⟩ "[" with
  | none =>
    rw [opened] at run
    cases run
  | some e =>
    rw [opened] at run
    obtain ⟨⟨es, f⟩, m, read, last⟩ := ok_of_bind run
    cases last
    obtain ⟨d', meets, settles⟩ := settles_arrayElements hself
      (meets_onto (quiet.suffix (reaches_consume? opened).suffix)) read ahead (by rwa [Base.worded] at worded)
    exact ⟨d', meets, settles.bind (settles_pure _)⟩

/-- What begins like an array, an object or a prefix operator and is none of them is a text nobody quoted. -/
theorem not_worded_of_lead (lead : x ∈ leads) {t : Text} {otherwise : ParseError}
    (run : firstOf otherwise [functionBase term ⟨x :: t, p⟩, implicitBase term ⟨x :: t, p⟩] l = .ok (b, d) l') :
    ¬b.worded = true := by
  obtain ⟨e, none⟩ : ∃ e, functionLiteral term ⟨x :: t, p⟩ = .error e := functionLiteral_lead lead
  rcases ok_of_firstOf run with read | ⟨e', m, -, rest⟩
  · rw [functionBase, none] at read
    cases read
  · rcases ok_of_firstOf rest with read | ⟨e', m, -, rest⟩
    · exact not_worded_of_implicitString lead (ok_of_ofExcept read)
    · cases rest

/-- Neither is a base that begins with a prefix operator. -/
theorem not_worded_of_operator (operator : unaryOfChar? x ≠ none) {t : Text}
    (run : base names self fuel term ⟨x :: t, p⟩ l = .ok (b, d) l') : ¬b.worded = true := by
  have lead : x ∈ leads ∧ x ≠ '\x7b' ∧ x ≠ '[' := by
    unfold unaryOfChar? at operator
    split at operator
    · next minus => exact beq_iff_eq.mp minus ▸ by decide
    · split at operator
      · next semicolon => exact beq_iff_eq.mp semicolon ▸ by decide
      · exact absurd rfl operator
  obtain ⟨e, unnamed⟩ := bindingName_lead (t := t) (p := p) lead.1
  obtain ⟨e', unwritten⟩ := literal_lead (t := t) (p := p) lead.1
  rcases ok_of_firstOf run with read | ⟨-, m, -, run⟩
  · rw [call, unnamed] at read
    cases read
  rcases ok_of_firstOf run with read | ⟨-, m, -, run⟩
  · rw [variableName, unnamed] at read
    cases read
  rcases ok_of_firstOf run with read | ⟨-, m, -, run⟩
  · rw [literalBase, unwritten] at read
    cases read
  rcases ok_of_firstOf run with read | ⟨-, m, -, run⟩
  · exact ((misses_object lead.2.1).not_ok read).elim
  rcases ok_of_firstOf run with read | ⟨-, m, -, run⟩
  · exact ((misses_array lead.2.2).not_ok read).elim
  exact not_worded_of_lead lead.1 run

end Alternatives

theorem settles_base (hself : B.Mirrors (expressionAt names n)) (fits : term.Fits term') (quiet : B.Quiet (x :: v))
    {b : Base} (run : base names (expressionAt names n) fuel term ⟨x :: v ++ B.text, p⟩ l = .ok (b, d) l')
    (lands : B.Lands d) (ends : Unaccessed names d → Unoperated names term d → B.Ends d) (worded : b.worded = true) :
    ∃ d', B.Meets d d' ∧ (base names (expressionAt names n) fuel term' ⟨x :: v, p⟩).Settles (b, d') := by
  -- An alternative that does not match in the source matches no more when the text stands alone. The exception
  -- are arrays and objects, and then the base is a text nobody quoted that begins like one.
  rcases ok_of_firstOf run with read | ⟨e, m, missed, run⟩
  · obtain ⟨d', meets, settles⟩ := settles_call hself fits quiet read lands.ahead ends worded
    exact ⟨d', meets, settles.first⟩
  suffices later : ∃ d', B.Meets d d' ∧ (firstOf (noMatch ⟨x :: v, p⟩ "expected an expression")
      [variableName names ⟨x :: v, p⟩, literalBase ⟨x :: v, p⟩, object (expressionAt names n) fuel ⟨x :: v, p⟩,
        array (expressionAt names n) fuel ⟨x :: v, p⟩, functionBase term' ⟨x :: v, p⟩,
        implicitBase term' ⟨x :: v, p⟩]).Settles (b, d') by
    obtain ⟨d', meets, settles⟩ := later
    exact ⟨d', meets, (misses_call missed).next settles⟩
  rcases ok_of_firstOf run with read | ⟨e, m, missed, run⟩
  · obtain ⟨d', meets, settles⟩ := settles_variableName quiet read
    exact ⟨d', meets, settles.first⟩
  have noVariable := misses_variableName missed
  rcases ok_of_firstOf run with read | ⟨e, m, missed, run⟩
  · obtain ⟨d', meets, settles⟩ := (tallies_literalBase quiet).settles read lands.ahead
    exact ⟨d', meets, noVariable.next (Settles.first settles)⟩
  have noLiteral : (literalBase ⟨x :: v, p⟩).Misses := (tallies_literalBase quiet).misses missed
  rcases ok_of_firstOf run with read | ⟨e, m, missed, run⟩
  · obtain ⟨d', meets, settles⟩ := settles_object hself quiet read lands.ahead worded
    exact ⟨d', meets, noVariable.next (noLiteral.next settles.first)⟩
  by_cases brace : x = '\x7b'
  · subst brace
    rcases ok_of_firstOf run with read | ⟨e, m, -, run⟩
    · exact ((misses_array (by decide)).not_ok read).elim
    · exact absurd worded (not_worded_of_lead (by decide) run)
  have noObject : (object (expressionAt names n) fuel ⟨x :: v, p⟩).Misses := misses_object brace
  rcases ok_of_firstOf run with read | ⟨e, m, missed, run⟩
  · obtain ⟨d', meets, settles⟩ := settles_array hself quiet read lands.ahead worded
    exact ⟨d', meets, noVariable.next (noLiteral.next (noObject.next settles.first))⟩
  by_cases bracket : x = '['
  · subst bracket
    exact absurd worded (not_worded_of_lead (by decide) run)
  have noArray : (array (expressionAt names n) fuel ⟨x :: v, p⟩).Misses := misses_array bracket
  rcases ok_of_firstOf run with read | ⟨e, m, missed, run⟩
  · obtain ⟨d', meets, settles⟩ := (tallies_functionBase fits quiet).settles read lands
    exact ⟨d', meets, noVariable.next (noLiteral.next (noObject.next (noArray.next (Settles.first settles))))⟩
  have noFunction : (functionBase term' ⟨x :: v, p⟩).Misses := (tallies_functionBase fits quiet).misses missed
  rcases ok_of_firstOf run with read | ⟨e, m, missed, run⟩
  · obtain ⟨d', alone, meets⟩ := implicitString_cut fits quiet (ok_of_ofExcept read) lands
    have settles : (implicitBase term' ⟨x :: v, p⟩).Settles (b, d') := settles_ofExcept alone
    exact ⟨d', meets, noVariable.next (noLiteral.next (noObject.next (noArray.next (noFunction.next settles.first))))⟩
  · cases run

/-! ## Operands and operations -/

/-- No operator begins like an array, an object or the end of an expression within another one. -/
theorem not_binaryOperator (none : x ∈ ['[', '\x7b', ',', ']', '\x7d']) {t : Text} {op : BinaryOp}
    (read : binaryOperator ⟨x :: t, p⟩ = .ok (op, d)) : False := by
  unfold binaryOperator at read
  split at read
  · cases read
  · next found hop =>
    have starts : Cursor.startsWith ⟨x :: t, p⟩ found.token = true := by simpa using List.find?_some hop
    have apart : ∀ op : BinaryOp, ∀ x ∈ ['[', '\x7b', ',', ']', '\x7d'], op.token.toList.head? ≠ some x := by
      intro op
      cases op <;> decide
    obtain ⟨u, whole⟩ := List.isPrefixOf_iff_prefix.mp starts
    obtain ⟨y, w, token⟩ := List.exists_cons_of_ne_nil found.token_ne_nil
    rw [token] at whole
    cases whole
    exact apart found x none (by rw [token]; rfl)

theorem reaches_operations {left : Nat} {f g : Fold}
    (run : operations names (expressionAt names n) n term left f c l = .ok (g, d) l') : c.Reaches d := by
  induction left generalizing c f l with
  | zero => cases run
  | succ left ih =>
    rcases step_of_operations run with ⟨same, -⟩ | ⟨op, e, runs, tree, h, m, here, read, rest⟩
    · cases same
      exact .refl _
    · have operand := ((concludes_operand (placesIn_expressionAt ⟨names, c⟩ n) term
        (((reaches_skipGap c).trans (passes_binaryOperator here.2).reaches).skipGap)).ok read).1
      exact operand.trans (ih rest)

theorem operands_of_operations {P : Expr → Prop} (operandwise : Expr.Operandwise P) {left : Nat} {f g : Fold}
    (balanced : f.Balanced) (run : operations names (expressionAt names n) n term left f c l = .ok (g, d) l') :
    g.Balanced ∧ (g.All P → f.All P) := by
  induction left generalizing c f l with
  | zero => cases run
  | succ left ih =>
    rcases step_of_operations run with ⟨same, -⟩ | ⟨op, e, runs, tree, h, m, -, -, rest⟩
    · cases same
      exact ⟨balanced, id⟩
    · obtain ⟨balanced', all⟩ := ih (balanced.link op _ runs tree) rest
      refine ⟨balanced', fun every => ?_⟩
      have pushed := (Fold.all_pushOperand _ runs tree).mp (all every)
      exact (Fold.all_pushBinary operandwise f op _).mp pushed.2

/-- Under the cursor the reading in the source goes on with operations and ends in front of the rest. -/
def Resumes (B : Behind) (names : Names) (term : Terminator) (c : Cursor) : Prop :=
  ∃ n left f g d l l', operations names (expressionAt names n) n term left f c l = .ok (g, d) l' ∧ B.Ahead d ∧ B.Ends d

namespace Resumes

variable (resumes : B.Resumes names term c)

include resumes

theorem ahead : B.Ahead c := by
  obtain ⟨n, left, f, g, d, l, l', run, ahead, -⟩ := resumes
  exact ahead.of_reaches (reaches_operations run)

theorem ends (unoperated : Unoperated names term c) : B.Ends c := by
  obtain ⟨n, left, f, g, d, l, l', run, -, ends⟩ := resumes
  cases unoperated run
  exact ends

/-- No brackets are left. -/
theorem free (inside : B.rest.length < c.rest.length) (bracket : x = '[' ∨ x = '\x7b') : c.rest.head? ≠ some x := by
  intro here
  obtain ⟨n, left, f, g, d, l, l', run, -, ends⟩ := resumes
  obtain ⟨t, p⟩ := c
  cases t with
  | nil => cases here
  | cons y t =>
    cases here
    have solid : skipGap ⟨x :: t, p⟩ = ⟨x :: t, p⟩ := by
      refine skipGap_solid ?_ (fun slash => ?_) p
      · rcases bracket with rfl | rfl <;> decide
      · rcases bracket with same | same <;> rw [same] at slash <;> cases slash
    cases left with
    | zero => cases run
    | succ left =>
      rcases step_of_operations run with ⟨same, -⟩ | ⟨op, e, -, -, -, -, here, -⟩
      · cases same
        rcases ends with past | ⟨y, closes, here⟩
        · rw [solid] at past
          exact absurd past (Nat.not_le.mpr inside)
        · rw [solid] at here
          cases here
          rcases bracket with rfl | rfl <;> revert closes <;> decide
      · have read := here.2
        rw [solid] at read
        refine not_binaryOperator ?_ read
        rcases bracket with rfl | rfl <;> decide

end Resumes

theorem settles_atom (hself : B.Mirrors (expressionAt names n)) (fits : term.Fits term') (quiet : B.Quiet (x :: v))
    {e : Expr} (run : atom names (expressionAt names n) fuel term ⟨x :: v ++ B.text, p⟩ l = .ok (e, d) l')
    (resumes : B.Resumes names term d) (worded : e.worded = true) :
    ∃ d', B.Meets d d' ∧ (atom names (expressionAt names n) fuel term' ⟨x :: v, p⟩).Settles (e, d') := by
  obtain ⟨⟨b, f⟩, m, read, rest⟩ := ok_of_bind run
  obtain ⟨⟨accs, g⟩, m', more, last⟩ := ok_of_bind rest
  cases last
  rw [Expr.worded, Bool.and_eq_true] at worded
  have ahead : B.Ahead f := resumes.ahead.of_reaches (reaches_accessors more)
  have lands : B.Lands f := by
    refine ⟨ahead, fun inside brace => ?_⟩
    -- There are no accessors in front of a brace.
    cases fuel with
    | zero => cases more
    | succ fuel =>
      rw [accessors_other (by rw [brace]; rintro _ ⟨⟩; decide)] at more
      cases more
      exact resumes.free inside (.inr rfl) brace
  have ends (unaccessed : Unaccessed names f) (unoperated : Unoperated names term f) : B.Ends f := by
    cases unaccessed more
    exact resumes.ends unoperated
  obtain ⟨f', at_f, first⟩ := settles_base hself fits quiet read lands ends worded.1
  obtain ⟨d', at_d, settles⟩ := settles_accessors hself at_f more resumes.ahead
    (fun inside => resumes.free inside (.inl rfl)) worded.2
  exact ⟨d', at_d, first.bind (settles.bind (settles_pure _))⟩

theorem settles_operand (hself : B.Mirrors (expressionAt names n)) (fits : term.Fits term') (quiet : B.Quiet (x :: v))
    {runs : List UnaryRun} {e : Expr}
    (run : operand names (expressionAt names n) n term ⟨x :: v ++ B.text, p⟩ l = .ok (runs, e, d) l')
    (resumes : B.Resumes names term d) (worded : e.worded = true) :
    ∃ d', B.Meets d d' ∧ (operand names (expressionAt names n) n term' ⟨x :: v, p⟩).Settles (runs, e, d') := by
  rcases step_of_operand run with ⟨some, rfl, read⟩ | ⟨rfl, m, read, missed⟩
  · rcases unaryRuns_cut quiet p with past | ⟨runs, y, w, q, there, here, behind⟩
    · exact absurd resumes.ahead (not_ahead_of_passes past (passes_atom read))
    · rw [there] at some read ⊢
      obtain ⟨d', meets, settles⟩ := settles_atom hself fits behind read resumes worded
      refine ⟨d', meets, ?_⟩
      unfold operand
      rw [here]
      cases runs with
      | nil => exact absurd rfl some
      | cons first runs => exact settles.attempt.bind (settles_pure _)
  · obtain ⟨d', meets, settles⟩ := settles_atom hself fits quiet read resumes worded
    have none : unaryOfChar? x = none := by
      -- What begins with an operator and is no operand is a text nobody quoted.
      refine Decidable.byContradiction fun operator => ?_
      obtain ⟨⟨b, f⟩, m', based, rest⟩ := ok_of_bind read
      obtain ⟨⟨accs, g⟩, m'', -, last⟩ := ok_of_bind rest
      cases last
      rw [Expr.worded, Bool.and_eq_true] at worded
      exact not_worded_of_operator operator based worded.1
    refine ⟨d', meets, ?_⟩
    unfold operand
    rw [unaryRuns_nil none]
    exact settles.bind (settles_pure _)

/-- Operations do not go on in front of the end of an expression. -/
theorem settles_operations_end (meets : B.Meets c c') (ends : B.Ends c) {left : Nat} {f : Fold} :
    (operations names (expressionAt names n) n term' (left + 1) f c').Settles (f, c') := by
  have stands := meets.skipGap
  rw [operations]
  dsimp only [measureGap]
  unfold Ends at ends
  generalize skipGap c = s at stands ends
  generalize skipGap c' = s' at stands
  cases stands with
  | beyond past => exact settles_pure _
  | @inside x v p quiet solid =>
    have closes : x ∈ closers := by
      rcases ends with past | ⟨y, closes, here⟩
      · rw [List.length_append, length_text, List.length_cons] at past
        omega
      · cases here
        exact closes
    split
    · exact settles_pure _
    · cases read : binaryOperator ⟨x :: v, p⟩ with
      | error e => exact settles_pure _
      | ok r =>
        have part : ∀ x ∈ closers, x ∈ ['[', '\x7b', ',', ']', '\x7d'] := by decide
        exact (not_binaryOperator (part x closes) read).elim

theorem goes_cut (fits : term.Fits term') (goes : ¬term (x :: v ++ B.text) = true) : ¬term' (x :: v) = true := by
  rw [fits.charwise' x v []]
  rw [List.cons_append, fits.charwise x (v ++ B.text) []] at goes
  by_cases brace : x = '\x7b'
  · rw [brace, fits.brace]
    exact Bool.false_ne_true
  · rwa [← fits.agree x brace]

theorem settles_operations (hself : B.Mirrors (expressionAt names n)) (fits : term.Fits term') {left : Nat}
    {f g : Fold} (meets : B.Meets c c') (balanced : f.Balanced)
    (run : operations names (expressionAt names n) n term left f c l = .ok (g, d) l') (ahead : B.Ahead d)
    (ends : B.Ends d) (worded : g.All (·.worded = true)) :
    ∃ d', B.Meets d d' ∧ (operations names (expressionAt names n) n term' left f c').Settles (g, d') := by
  induction left generalizing c c' f l with
  | zero => cases run
  | succ left ih =>
    rcases step_of_operations run with ⟨same, -⟩ | ⟨op, e, runs, tree, h, m, here, read, rest⟩
    · cases same
      exact ⟨c', meets, settles_operations_end meets ends⟩
    · have resumes : B.Resumes names term h := ⟨_, _, _, _, _, _, _, rest, ahead, ends⟩
      have behind : B.Ahead e := resumes.ahead.of_reaches ((reaches_skipGap e).trans (passes_operand read).reaches)
      obtain ⟨goes, found⟩ := here
      obtain ⟨x, v, p, there, alone, quiet⟩ := meets.exists_inside (passes_binaryOperator found) behind
      rw [there] at goes found
      rw [binaryOperator_cut] at found
      cases found' : binaryOperator ⟨x :: v, p⟩ with
      | error e =>
        rw [found'] at found
        cases found
      | ok r =>
        rw [found'] at found
        cases found
        have at_e := meets_onto (quiet.suffix (passes_binaryOperator found').reaches.suffix)
        obtain ⟨y, w, q, there', alone', quiet'⟩ := at_e.exists_inside (passes_operand read) resumes.ahead
        rw [there'] at read
        have linked := balanced.link r.1 (gap c.rest + gap (r.2.onto B.text).rest) runs tree
        have operands := (operands_of_operations Expr.operandwise_worded linked rest).2 worded
        have operand := ((Fold.all_pushOperand _ runs tree).mp operands).1
        obtain ⟨h', at_h, first⟩ := settles_operand hself fits quiet' read resumes operand
        obtain ⟨d', at_d, settles⟩ := ih at_h linked rest
        refine ⟨d', at_d, ?_⟩
        have goes' : ¬(Cursor.atEnd ⟨x :: v, p⟩ || term' (x :: v)) = true := goes_cut fits goes
        rw [operations]
        dsimp only [measureGap]
        rw [meets.gap_eq (by rw [alone]; exact List.cons_ne_nil x v),
          at_e.gap_eq (by rw [alone']; exact List.cons_ne_nil y w)] at settles
        rw [alone, if_neg goes', found']
        dsimp only
        rw [alone']
        exact first.attempt.bind settles

/-! ## Expressions -/

theorem settles_expressionWith (hself : B.Mirrors (expressionAt names n)) :
    B.Mirrors (expressionWith names (expressionAt names n) n) := by
  intro term term' x v p l e d l' fits quiet run ahead ends worded
  obtain ⟨⟨runs, tree, f⟩, m, first, rest⟩ := ok_of_bind run
  obtain ⟨⟨g, h⟩, m', more, last⟩ := ok_of_bind rest
  cases last
  have balanced := Fold.balanced_operand runs tree
  obtain ⟨finished, operands⟩ := operands_of_operations Expr.operandwise_worded balanced more
  have every := (finished.headD_iff Expr.operandwise_worded tree).mp worded
  have operand := ((Fold.all_pushOperand {} runs tree).mp (operands every)).1
  have resumes : B.Resumes names term f := ⟨_, _, _, _, _, _, _, more, ahead, ends⟩
  obtain ⟨f', at_f, settles⟩ := settles_operand hself fits quiet first resumes operand
  obtain ⟨d', at_d, settles'⟩ := settles_operations hself fits at_f balanced more ahead ends every
  exact ⟨d', at_d, settles.bind (settles'.bind (settles_pure _))⟩

/-- What is read in the source of a text and ends in front of the rest is read when the text stands alone. -/
theorem mirrors_expressionAt (B : Behind) (names : Names) (n : Nat) : B.Mirrors (expressionAt names n) := by
  induction n with
  | zero =>
    intro term term' x v p l e d l' fits quiet run
    cases run
  | succ n ih => exact settles_expressionWith ih

end Behind

end Gapscript
