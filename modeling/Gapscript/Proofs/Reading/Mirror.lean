import Gapscript.Proofs.Reading.Settle
import Gapscript.Proofs.Reading.Tally
import Gapscript.Proofs.Reading.Literal
import Gapscript.Proofs.Reading.Place
import Gapscript.Proofs.Expr.Folding

/-!
# Productions read in a source and alone

What a production reads in the source of a text, it reads again when the text stands alone, if the expressions
in it do (`Behind.Mirrors`): arguments, the entries of objects, the elements of arrays, and accessors. A
production that does not match in the source may match when the text stands alone, and the other way round,
where a quoted string is closed behind the text. So only readings that end in front of the rest are compared,
and only trees without a text nobody quoted that begins like an array, an object or an operator (`Expr.worded`).
-/

namespace Gapscript

open Lexical Cursor Reading

/-! ## Trees -/

/-- The characters that begin an array, an object or a prefix operator. -/
def leads : List Char := ['[', '\x7b', '-', ';']

mutual

/-- No text that nobody quoted begins like an array, an object or a prefix operator. -/
def Expr.worded : Expr → Bool
  | .atom b accs _ => b.worded && Accessor.allWorded accs
  | .unary _ e => e.worded
  | .binary _ l r => l.worded && r.worded

/-- The same of a base. -/
def Base.worded : Base → Bool
  | .literal (.string s) true => s.toList.head?.all (!leads.contains ·)
  | .literal _ _ => true
  | .name .. => true
  | .call _ _ args _ => Expr.allWorded args
  | .object _ values => Expr.allWorded values
  | .array elements => Expr.allWorded elements
  | .function _ => true

/-- The same of some trees. -/
def Expr.allWorded : List Expr → Bool
  | [] => true
  | e :: es => e.worded && Expr.allWorded es

/-- The same of some accessors. -/
def Accessor.allWorded : List Accessor → Bool
  | [] => true
  | .dot _ :: accs => Accessor.allWorded accs
  | .index e :: accs => e.worded && Accessor.allWorded accs

end

theorem Expr.operandwise_worded : Expr.Operandwise (·.worded = true) where
  unary op e := by rw [Expr.worded]
  binary op l r := by rw [Expr.worded, Bool.and_eq_true]

namespace Behind

variable {B : Behind} {names : Names} {n : Nat} {term term' : Terminator} {v : Text} {x : Char} {p : Position}
  {c c' d d' : Cursor} {l l' : List String} {fuel : Nat}

/-- What the reader reads in the source, it reads when the text stands alone. -/
def Mirrors (B : Behind) (self : ExprReader) : Prop :=
  ∀ {term term' x v p l e d l'}, Terminator.Fits term term' → B.Quiet (x :: v) →
    self term ⟨x :: v ++ B.text, p⟩ l = .ok (e, d) l' → B.Ahead d → B.Ends d → e.worded = true →
    ∃ d', B.Meets d d' ∧ (self term' ⟨x :: v, p⟩).Settles (e, d')

/-- What is read behind white space and comments and ends in front of the rest begins in the text. -/
theorem Meets.exists_inside (meets : B.Meets c c') (passes : (Lexical.skipGap c).Passes d) (ahead : B.Ahead d) :
    ∃ x v p, Lexical.skipGap c = ⟨x :: v ++ B.text, p⟩ ∧ Lexical.skipGap c' = ⟨x :: v, p⟩ ∧ B.Quiet (x :: v) := by
  have stands := meets.skipGap
  generalize Lexical.skipGap c = s at stands passes
  generalize Lexical.skipGap c' = s' at stands
  cases stands with
  | beyond past => exact absurd ahead (not_ahead_of_passes past passes)
  | inside quiet solid => exact ⟨_, _, _, rfl, rfl, quiet⟩

/-- An expression behind white space and comments. -/
theorem mirrors_skipGap (hself : B.Mirrors (expressionAt names n)) (fits : term.Fits term') (meets : B.Meets c c')
    {e : Expr} (run : expressionAt names n term (skipGap c) l = .ok (e, d) l') (ahead : B.Ahead d) (ends : B.Ends d)
    (worded : e.worded = true) :
    ∃ d', B.Meets d d' ∧ (expressionAt names n term' (skipGap c')).Settles (e, d') := by
  obtain ⟨x, v, p, there, here, quiet⟩ := meets.exists_inside (passes_expressionAt run) ahead
  rw [there] at run
  rw [here]
  exact hself fits quiet run ahead ends worded

/-! ## Arguments -/

/-- No argument begins under the cursor. -/
def noArgument (term : Terminator) (c : Cursor) : Bool :=
  c.atEnd || Terminator.statement c.rest || term c.rest

theorem noArgument_cut (fits : term.Fits term') (goes : ¬noArgument term ⟨x :: v ++ B.text, p⟩ = true) :
    ¬noArgument term' ⟨x :: v, p⟩ = true := by
  have same (term : Terminator) (t : Text) : noArgument term ⟨x :: t, p⟩ = Terminator.statement.or term (x :: t) := by
    rw [noArgument, Terminator.or]
    exact congrArg (· || term (x :: t)) (Bool.false_or _)
  rw [List.cons_append, same] at goes
  rw [same]
  by_cases brace : x = '\x7b'
  · rw [brace]
    exact Bool.eq_false_iff.mp fits.goes
  · exact fun stops => goes ((fits.stops B.edged brace).symm.trans stops)

section Arguments

variable {self : ExprReader} {tooFew : Nat → Error} {read left : Nat} {arg : Expr} {args : List Expr} {e f : Cursor}

/-- The last argument ends with its expression, any other one with a comma. -/
theorem step_of_arguments (run : arguments self tooFew term read (left + 1) c l = .ok (args, d) l') :
    ¬noArgument term (skipGap c) = true ∧
      ∃ arg e m, self (if left = 0 then term else term.or (Terminator.tokens [","])) (skipGap c) l = .ok (arg, e) m ∧
        (left = 0 ∧ args = [arg] ∧ d = e ∨ left ≠ 0 ∧ ∃ f more, (skipGap e).consume? "," = some f ∧
          args = arg :: more ∧ arguments self tooFew term (read + 1) left f m = .ok (more, d) l') := by
  rw [arguments] at run
  dsimp only at run
  split at run
  · cases run
  · next goes =>
    refine ⟨goes, ?_⟩
    obtain ⟨r, m, tried, rest⟩ := ok_of_bind run
    rcases ok_of_attempt tried with ⟨⟨arg, e⟩, rfl, first⟩ | ⟨rfl, -⟩
    · refine ⟨arg, e, m, first, ?_⟩
      dsimp only at rest
      split at rest
      · next last =>
        cases rest
        exact .inl ⟨last, rfl, rfl⟩
      · next more =>
        cases comma : (skipGap e).consume? "," with
        | none =>
          rw [comma] at rest
          cases rest
        | some f =>
          rw [comma] at rest
          obtain ⟨⟨args, g⟩, m, later, last⟩ := ok_of_bind rest
          cases last
          exact .inr ⟨more, f, args, rfl, rfl, later⟩
    · cases rest

theorem settles_arguments_last (goes : ¬noArgument term (skipGap c) = true)
    (first : (self term (skipGap c)).Settles (arg, e)) :
    (arguments self tooFew term read 1 c).Settles ([arg], e) := by
  rw [noArgument] at goes
  rw [arguments]
  dsimp only
  rw [if_neg goes]
  exact first.attempt.bind (settles_pure _)

theorem settles_arguments_more (goes : ¬noArgument term (skipGap c) = true) (more : left ≠ 0)
    (first : (self (term.or (Terminator.tokens [","])) (skipGap c)).Settles (arg, e))
    (comma : (skipGap e).consume? "," = some f)
    (rest : (arguments self tooFew term (read + 1) left f).Settles (args, d)) :
    (arguments self tooFew term read (left + 1) c).Settles (arg :: args, d) := by
  rw [noArgument] at goes
  rw [arguments]
  dsimp only
  rw [if_neg goes, if_neg more]
  refine first.attempt.bind ?_
  dsimp only
  rw [if_neg more, comma]
  exact rest.bind (settles_pure _)

end Arguments

theorem reaches_arguments {tooFew : Nat → Error} {read left : Nat} {args : List Expr}
    (run : arguments (expressionAt names n) tooFew term read left c l = .ok (args, d) l') : c.Reaches d := by
  induction left generalizing read c l args with
  | zero =>
    cases run
    exact .refl _
  | succ left ih =>
    obtain ⟨-, arg, e, m, first, rest⟩ := step_of_arguments run
    have passed := (reaches_skipGap c).then (passes_expressionAt first)
    rcases rest with ⟨-, -, rfl⟩ | ⟨-, f, more, comma, -, later⟩
    · exact passed.reaches
    · exact (passed.skipGap.reaches.trans (reaches_consume? comma)).trans (ih later)

theorem settles_arguments (hself : B.Mirrors (expressionAt names n)) (fits : term.Fits term') {tooFew : Nat → Error}
    {read left : Nat} (meets : B.Meets c c') {args : List Expr}
    (run : arguments (expressionAt names n) tooFew term read left c l = .ok (args, d) l') (ahead : B.Ahead d)
    (ends : left ≠ 0 → B.Ends d) (worded : Expr.allWorded args = true) :
    ∃ d', B.Meets d d' ∧ (arguments (expressionAt names n) tooFew term' read left c').Settles (args, d') := by
  induction left generalizing read c c' l args with
  | zero =>
    cases run
    exact ⟨c', meets, settles_pure _⟩
  | succ left ih =>
    obtain ⟨goes, arg, e, m, first, rest⟩ := step_of_arguments run
    rcases rest with ⟨rfl, rfl, rfl⟩ | ⟨more, f, args, comma, rfl, later⟩
    · rw [Expr.allWorded, Bool.and_eq_true] at worded
      obtain ⟨x, v, p, there, here, quiet⟩ := meets.exists_inside (passes_expressionAt first) ahead
      rw [there] at goes first
      obtain ⟨d', meets', alone⟩ := hself fits quiet first ahead (ends (Nat.succ_ne_zero 0)) worded.1
      rw [← here] at alone
      exact ⟨d', meets', settles_arguments_last (here ▸ noArgument_cut fits goes) alone⟩
    · rw [Expr.allWorded, Bool.and_eq_true] at worded
      rw [if_neg more] at first
      have behind : B.Ahead f := ahead.of_reaches (reaches_arguments later)
      have before : B.Ahead e := behind.of_reaches ((reaches_skipGap e).trans (reaches_consume? comma))
      obtain ⟨x, v, p, there, here, quiet⟩ := meets.exists_inside (passes_expressionAt first) before
      rw [there] at goes first
      have fits' : (term.or (Terminator.tokens [","])).Fits (term'.or (Terminator.tokens [","])) :=
        fits.or (by decide) (by decide)
      obtain ⟨e', at_e, alone⟩ := hself fits' quiet first before (ends_of_consume? rfl (by decide) comma) worded.1
      obtain ⟨f', comma', at_f⟩ := at_e.consume? (by decide) (by decide) comma behind
      obtain ⟨d', at_d, rest⟩ := ih at_f later (fun _ => ends (Nat.succ_ne_zero left)) worded.2
      rw [← here] at alone
      exact ⟨d', at_d, settles_arguments_more (here ▸ noArgument_cut fits goes) more alone comma' rest⟩

/-! ## Objects and arrays -/

section Elements

variable {self : ExprReader} {keys : List String} {values es : List Expr}

/-- An entry of an object is the last one, or a comma and further entries follow. -/
theorem step_of_objectEntries (run : objectEntries self (fuel + 1) c l = .ok (keys, values, d) l') :
    (skipGap c).consume? "\x7d" = some d ∧ keys = [] ∧ values = [] ∨
      (skipGap c).consume? "\x7d" = none ∧ ∃ key e f value g m, objectKey (skipGap c) = .ok (key, e) ∧
        (skipGap e).consume? ":" = some f ∧ self (Terminator.tokens [",", "\x7d"]) (skipGap f) l = .ok (value, g) m ∧
          ((skipGap g).consume? "," = none ∧ (skipGap g).consume? "\x7d" = some d ∧ keys = [key] ∧ values = [value] ∨
            ∃ h ks vs, (skipGap g).consume? "," = some h ∧ keys = key :: ks ∧ values = value :: vs ∧
              objectEntries self fuel h m = .ok (ks, vs, d) l') := by
  rw [objectEntries] at run
  dsimp only at run
  cases close : (skipGap c).consume? "\x7d" with
  | some e =>
    rw [close] at run
    cases run
    exact .inl ⟨rfl, rfl, rfl⟩
  | none =>
    rw [close] at run
    obtain ⟨⟨key, e⟩, m, keyed, rest⟩ := ok_of_bind run
    refine .inr ⟨rfl, key, e, ?_⟩
    have read := ok_of_ofExcept keyed
    rw [read] at keyed
    cases keyed
    dsimp only at rest
    cases colon : (skipGap e).consume? ":" with
    | none =>
      rw [colon] at rest
      cases rest
    | some f =>
      rw [colon] at rest
      obtain ⟨⟨value, g⟩, m, first, rest⟩ := ok_of_bind rest
      refine ⟨f, value, g, m, read, rfl, first, ?_⟩
      dsimp only at rest
      cases comma : (skipGap g).consume? "," with
      | some h =>
        rw [comma] at rest
        obtain ⟨⟨ks, vs, i⟩, m, later, last⟩ := ok_of_bind rest
        cases last
        exact .inr ⟨h, ks, vs, rfl, rfl, rfl, later⟩
      | none =>
        rw [comma] at rest
        cases close' : (skipGap g).consume? "\x7d" with
        | some h =>
          rw [close'] at rest
          cases rest
          exact .inl ⟨rfl, rfl, rfl, rfl⟩
        | none =>
          rw [close'] at rest
          cases rest

/-- An element of an array is the last one, or a comma and further elements follow. -/
theorem step_of_arrayElements (run : arrayElements self (fuel + 1) c l = .ok (es, d) l') :
    (skipGap c).consume? "]" = some d ∧ es = [] ∨
      (skipGap c).consume? "]" = none ∧ ∃ e g m,
        self (Terminator.tokens [",", "]"]) (skipGap c) l = .ok (e, g) m ∧
          ((skipGap g).consume? "," = none ∧ (skipGap g).consume? "]" = some d ∧ es = [e] ∨
            ∃ h more, (skipGap g).consume? "," = some h ∧ es = e :: more ∧
              arrayElements self fuel h m = .ok (more, d) l') := by
  rw [arrayElements] at run
  dsimp only at run
  cases close : (skipGap c).consume? "]" with
  | some e =>
    rw [close] at run
    cases run
    exact .inl ⟨rfl, rfl⟩
  | none =>
    rw [close] at run
    obtain ⟨⟨e, g⟩, m, first, rest⟩ := ok_of_bind run
    refine .inr ⟨rfl, e, g, m, first, ?_⟩
    dsimp only at rest
    cases comma : (skipGap g).consume? "," with
    | some h =>
      rw [comma] at rest
      obtain ⟨⟨more, i⟩, m, later, last⟩ := ok_of_bind rest
      cases last
      exact .inr ⟨h, more, rfl, rfl, later⟩
    | none =>
      rw [comma] at rest
      cases close' : (skipGap g).consume? "]" with
      | some h =>
        rw [close'] at rest
        cases rest
        exact .inl ⟨rfl, rfl, rfl⟩
      | none =>
        rw [close'] at rest
        cases rest

end Elements

theorem reaches_objectEntries {keys : List String} {values : List Expr}
    (run : objectEntries (expressionAt names n) fuel c l = .ok (keys, values, d) l') : c.Reaches d :=
  ((concludes_objectEntries (placesIn_expressionAt ⟨names, c⟩ n) fuel (.refl c)).ok run).1

theorem settles_objectEntries (hself : B.Mirrors (expressionAt names n)) (meets : B.Meets c c')
    {keys : List String} {values : List Expr}
    (run : objectEntries (expressionAt names n) fuel c l = .ok (keys, values, d) l') (ahead : B.Ahead d)
    (worded : Expr.allWorded values = true) :
    ∃ d', B.Meets d d' ∧ (objectEntries (expressionAt names n) fuel c').Settles (keys, values, d') := by
  induction fuel generalizing c c' l keys values with
  | zero => cases run
  | succ fuel ih =>
    rw [objectEntries]
    dsimp only
    rcases step_of_objectEntries run with ⟨close, rfl, rfl⟩ | ⟨open_, key, e, f, value, g, m, keyed, colon, first, rest⟩
    · obtain ⟨d', close', at_d⟩ := meets.consume? (by decide) (by decide) close ahead
      rw [close']
      exact ⟨d', at_d, settles_pure _⟩
    · rw [meets.consume?_none (by decide) (by decide) open_]
      have fits : (Terminator.tokens [",", "\x7d"]).Fits (Terminator.tokens [",", "\x7d"]) :=
        Terminator.fits_tokens (by decide) (by decide)
      -- The key and the value are read alone as well, as soon as the value ends in front of the rest.
      have entry (behind : B.Ahead g) (ends : B.Ends g) (worded : value.worded = true) :
          ∃ e' f' g', objectKey (skipGap c') = .ok (key, e') ∧ (skipGap e').consume? ":" = some f' ∧
            B.Meets g g' ∧
            (expressionAt names n (Terminator.tokens [",", "\x7d"]) (skipGap f')).Settles (value, g') := by
        have after : B.Ahead f := behind.of_reaches ((reaches_skipGap f).trans (passes_expressionAt first).reaches)
        have before : B.Ahead e := after.of_reaches ((reaches_skipGap e).trans (reaches_consume? colon))
        obtain ⟨x, v, p, there, here, quiet⟩ := meets.exists_inside (passes_objectKey keyed) before
        rw [there] at keyed
        obtain ⟨e', keyed', at_e⟩ := (tallies_objectKey quiet).ok keyed before
        obtain ⟨f', colon', at_f⟩ := at_e.consume? (by decide) (by decide) colon after
        obtain ⟨g', at_g, alone⟩ := mirrors_skipGap hself fits at_f first behind ends worded
        exact ⟨e', f', g', here ▸ keyed', colon', at_g, alone⟩
      rcases rest with ⟨comma, close, rfl, rfl⟩ | ⟨h, ks, vs, comma, rfl, rfl, later⟩
      · rw [Expr.allWorded, Bool.and_eq_true] at worded
        have behind : B.Ahead g := ahead.of_reaches ((reaches_skipGap g).trans (reaches_consume? close))
        obtain ⟨e', f', g', keyed', colon', at_g, alone⟩ :=
          entry behind (ends_of_consume? rfl (by decide) close) worded.1
        obtain ⟨d', close', at_d⟩ := at_g.consume? (by decide) (by decide) close ahead
        refine ⟨d', at_d, (settles_ofExcept keyed').bind ?_⟩
        dsimp only
        rw [colon']
        refine alone.bind ?_
        dsimp only
        rw [at_g.consume?_none (by decide) (by decide) comma, close']
        exact settles_pure _
      · rw [Expr.allWorded, Bool.and_eq_true] at worded
        have after : B.Ahead h := ahead.of_reaches (reaches_objectEntries later)
        have behind : B.Ahead g := after.of_reaches ((reaches_skipGap g).trans (reaches_consume? comma))
        obtain ⟨e', f', g', keyed', colon', at_g, alone⟩ :=
          entry behind (ends_of_consume? rfl (by decide) comma) worded.1
        obtain ⟨h', comma', at_h⟩ := at_g.consume? (by decide) (by decide) comma after
        obtain ⟨d', at_d, rest⟩ := ih at_h later worded.2
        refine ⟨d', at_d, (settles_ofExcept keyed').bind ?_⟩
        dsimp only
        rw [colon']
        refine alone.bind ?_
        dsimp only
        rw [comma']
        exact rest.bind (settles_pure _)

theorem reaches_arrayElements {es : List Expr}
    (run : arrayElements (expressionAt names n) fuel c l = .ok (es, d) l') : c.Reaches d :=
  ((concludes_arrayElements (placesIn_expressionAt ⟨names, c⟩ n) fuel (.refl c)).ok run).1

theorem settles_arrayElements (hself : B.Mirrors (expressionAt names n)) (meets : B.Meets c c') {es : List Expr}
    (run : arrayElements (expressionAt names n) fuel c l = .ok (es, d) l') (ahead : B.Ahead d)
    (worded : Expr.allWorded es = true) :
    ∃ d', B.Meets d d' ∧ (arrayElements (expressionAt names n) fuel c').Settles (es, d') := by
  induction fuel generalizing c c' l es with
  | zero => cases run
  | succ fuel ih =>
    rw [arrayElements]
    dsimp only
    rcases step_of_arrayElements run with ⟨close, rfl⟩ | ⟨open_, e, g, m, first, rest⟩
    · obtain ⟨d', close', at_d⟩ := meets.consume? (by decide) (by decide) close ahead
      rw [close']
      exact ⟨d', at_d, settles_pure _⟩
    · rw [meets.consume?_none (by decide) (by decide) open_]
      have fits : (Terminator.tokens [",", "]"]).Fits (Terminator.tokens [",", "]"]) :=
        Terminator.fits_tokens (by decide) (by decide)
      rcases rest with ⟨comma, close, rfl⟩ | ⟨h, more, comma, rfl, later⟩
      · rw [Expr.allWorded, Bool.and_eq_true] at worded
        have behind : B.Ahead g := ahead.of_reaches ((reaches_skipGap g).trans (reaches_consume? close))
        obtain ⟨g', at_g, alone⟩ :=
          mirrors_skipGap hself fits meets first behind (ends_of_consume? rfl (by decide) close) worded.1
        obtain ⟨d', close', at_d⟩ := at_g.consume? (by decide) (by decide) close ahead
        refine ⟨d', at_d, alone.bind ?_⟩
        dsimp only
        rw [at_g.consume?_none (by decide) (by decide) comma, close']
        exact settles_pure _
      · rw [Expr.allWorded, Bool.and_eq_true] at worded
        have after : B.Ahead h := ahead.of_reaches (reaches_arrayElements later)
        have behind : B.Ahead g := after.of_reaches ((reaches_skipGap g).trans (reaches_consume? comma))
        obtain ⟨g', at_g, alone⟩ :=
          mirrors_skipGap hself fits meets first behind (ends_of_consume? rfl (by decide) comma) worded.1
        obtain ⟨h', comma', at_h⟩ := at_g.consume? (by decide) (by decide) comma after
        obtain ⟨d', at_d, rest⟩ := ih at_h later worded.2
        refine ⟨d', at_d, alone.bind ?_⟩
        dsimp only
        rw [comma']
        exact rest.bind (settles_pure _)

/-! ## Accessors -/

theorem reaches_accessors {accs : List Accessor}
    (run : accessors (expressionAt names n) fuel c l = .ok (accs, d) l') : c.Reaches d :=
  ((concludes_accessors (placesIn_expressionAt ⟨names, c⟩ n) fuel (.refl c)).ok run).1

theorem edged_accessors {self : ExprReader} {t : Text} (edge : Edged t) :
    accessors self (fuel + 1) ⟨t, p⟩ = pure ([], ⟨t, p⟩) :=
  accessors_other (edge.head? (by decide))

theorem settles_accessors (hself : B.Mirrors (expressionAt names n)) (meets : B.Meets c c') {accs : List Accessor}
    (run : accessors (expressionAt names n) fuel c l = .ok (accs, d) l') (ahead : B.Ahead d)
    (free : B.rest.length < d.rest.length → d.rest.head? ≠ some '[') (worded : Accessor.allWorded accs = true) :
    ∃ d', B.Meets d d' ∧ (accessors (expressionAt names n) fuel c').Settles (accs, d') := by
  induction fuel generalizing c c' l accs with
  | zero => cases run
  | succ fuel ih =>
    have ended {p : Position} : (accessors (expressionAt names n) (fuel + 1) ⟨[], p⟩).Settles ([], ⟨[], p⟩) := by
      have none : ∀ x ∈ ([] : Text).head?, x ≠ '.' ∧ x ≠ '[' := nofun
      rw [accessors_other none]
      exact settles_pure _
    cases meets with
    | beyond part =>
      rw [edged_accessors (edged_behind part)] at run
      cases run
      exact ⟨_, .beyond part, ended⟩
    | @inside u p quiet =>
      cases u with
      | nil =>
        rw [List.nil_append, edged_accessors B.edged] at run
        cases run
        exact ⟨_, .inside quiet, ended⟩
      | cons x v =>
        have later := quiet.suffix (List.suffix_cons x v)
        by_cases dot : x = '.'
        · subst dot
          rw [List.cons_append, accessors_dot] at run
          rw [accessors_dot]
          have tallies := tallies_identifier (p := p.after '.') charwise_name later
          cases named : identifier Terminator.name ⟨v ++ B.text, p.after '.'⟩ with
          | error e =>
            obtain ⟨e', alone⟩ := tallies.error named
            rw [named] at run
            rw [alone]
            cases run
            exact ⟨_, .inside quiet, settles_pure _⟩
          | ok r =>
            obtain ⟨name, e⟩ := r
            rw [named] at run
            obtain ⟨⟨more, f⟩, m, rest, last⟩ := ok_of_bind run
            cases last
            obtain ⟨e', alone, at_e⟩ := tallies.ok named (ahead.of_reaches (reaches_accessors rest))
            obtain ⟨d', at_d, settles⟩ := ih at_e rest (by rwa [Accessor.allWorded] at worded)
            rw [alone]
            exact ⟨d', at_d, settles.bind (settles_pure _)⟩
        by_cases bracket : x = '['
        · subst bracket
          rw [List.cons_append, accessors_index] at run
          rw [accessors_index]
          obtain ⟨r, m, tried, rest⟩ := ok_of_bind run
          -- Accessors do not end in front of a bracket.
          have goes : (accs, d) ≠ ([], ⟨'[' :: (v ++ B.text), p⟩) := by
            intro same
            cases same
            refine free ?_ rfl
            rw [List.length_cons, List.length_append, length_text]
            omega
          rcases ok_of_attempt tried with ⟨⟨e, g⟩, rfl, first⟩ | ⟨rfl, -⟩
          · dsimp only at rest
            cases close : (skipGap g).consume? "]" with
            | none =>
              rw [close] at rest
              cases rest
              exact absurd rfl goes
            | some h =>
              rw [close] at rest
              obtain ⟨⟨more, f⟩, m, more_, last⟩ := ok_of_bind rest
              cases last
              rw [Accessor.allWorded, Bool.and_eq_true] at worded
              have after : B.Ahead h := ahead.of_reaches (reaches_accessors more_)
              have behind : B.Ahead g := after.of_reaches ((reaches_skipGap g).trans (reaches_consume? close))
              have fits : (Terminator.tokens ["]"]).Fits (Terminator.tokens ["]"]) :=
                Terminator.fits_tokens (by decide) (by decide)
              obtain ⟨g', at_g, alone⟩ := mirrors_skipGap hself fits (.inside later) first behind
                (ends_of_consume? rfl (by decide) close) worded.1
              obtain ⟨h', close', at_h⟩ := at_g.consume? (by decide) (by decide) close after
              obtain ⟨d', at_d, settles⟩ := ih at_h more_ worded.2
              refine ⟨d', at_d, alone.attempt.bind ?_⟩
              dsimp only
              rw [close']
              exact settles.bind (settles_pure _)
          · cases rest
            exact absurd rfl goes
        · have other (t : Text) : ∀ y ∈ (x :: t).head?, y ≠ '.' ∧ y ≠ '[' := by
            rintro _ ⟨⟩
            exact ⟨dot, bracket⟩
          rw [accessors_other (other _)] at run
          cases run
          rw [accessors_other (other _)]
          exact ⟨_, .inside quiet, settles_pure _⟩

end Behind

end Gapscript
