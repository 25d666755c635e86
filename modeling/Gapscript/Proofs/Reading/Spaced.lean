import Gapscript.Proofs.Expr.Throughout
import Gapscript.Proofs.Lexical.Spaced
import Gapscript.Proofs.Reading.Mirrored

/-!
# Reading with spaces for parentheses

Two readings echo each other if they end alike: with related results, both with a mismatch, or with the same
failure (`Reading.Echoes`). One pass over the productions shows that an expression that begins behind white
space is echoed by the same text with spaces for its parentheses, at the same places and with the same tree,
unless a part of the text is kept in the tree as it is written (`Expr.Written`). Only an expression that begins
with white space may be read in one of the texts alone, and such an expression is kept as it is written
(`parentheses_read_as_spaces`).
-/

namespace Gapscript

open Lexical

/-! ## The judgment -/

namespace Reading

variable {α β α' β' : Type}

/-- How two readings end alike: mismatches may differ in what they say. -/
inductive SameEnd (R : α → α' → Prop) :
    EStateM.Result Error (List String) α → EStateM.Result Error (List String) α' → Prop
  | ok {a : α} {a' : α'} (h : R a a') (l : List String) : SameEnd R (.ok a l) (.ok a' l)
  | mismatch (e e' : ParseError) (l : List String) :
    SameEnd R (.error (.mismatch e) l) (.error (.mismatch e') l)
  | failure {e : Error} (final : e.isMismatch = false) (l : List String) : SameEnd R (.error e l) (.error e l)

/-- Whatever was noted, the two readings end alike and note the same. -/
def Echoes (R : α → α' → Prop) (p : Reading α) (q : Reading α') : Prop := ∀ l, SameEnd R (p l) (q l)

section Rules

variable {R : α → α' → Prop} {S : β → β' → Prop} {p : Reading α} {q : Reading α'}

theorem echoes_pure {a : α} {a' : α'} (h : R a a') : Echoes R (pure a) (pure a') := fun l => .ok h l

theorem echoes_throw {e : Error} (final : e.isMismatch = false) : Echoes R (throw e) (throw e) :=
  fun l => .failure final l

theorem echoes_throw_bind {e : Error} (final : e.isMismatch = false) (h : β → Reading α) (h' : β' → Reading α') :
    Echoes R (throw e >>= h) (throw e >>= h') := fun l => .failure final l

theorem echoes_fail (e e' : ParseError) : Echoes R (fail e) (fail e') := fun l => .mismatch e e' l

theorem echoes_note (name : String) : Echoes (fun _ _ => True) (note name) (note name) := fun _ => .ok trivial _

theorem Echoes.bind {h : α → Reading β} {h' : α' → Reading β'} (hp : Echoes R p q)
    (next : ∀ a a', R a a' → Echoes S (h a) (h' a')) : Echoes S (p >>= h) (q >>= h') := by
  intro l
  have first := hp l
  generalize hr : p l = r at first
  generalize hr' : q l = r' at first
  cases first with
  | ok related m =>
    rw [bind_of_ok hr, bind_of_ok hr']
    exact next _ _ related m
  | mismatch e e' m =>
    rw [bind_of_error hr, bind_of_error hr']
    exact .mismatch e e' m
  | failure final m =>
    rw [bind_of_error hr, bind_of_error hr']
    exact .failure final m

theorem Echoes.attempt (hp : Echoes R p q) : Echoes (Option.Rel R) p.attempt q.attempt := by
  intro l
  unfold Reading.attempt
  have first := hp l
  generalize p l = r at first
  generalize q l = r' at first
  cases first with
  | ok related m => exact .ok (.some related) m
  | mismatch e e' m => exact .ok .none m
  | failure final m =>
    dsimp only
    rw [final]
    exact .failure final m

theorem echoes_firstOf_cons {otherwise otherwise' : ParseError} {ps : List (Reading α)} {qs : List (Reading α')}
    (hp : Echoes R p q) (rest : Echoes R (firstOf otherwise ps) (firstOf otherwise' qs)) :
    Echoes R (firstOf otherwise (p :: ps)) (firstOf otherwise' (q :: qs)) := by
  refine hp.attempt.bind fun r r' related => ?_
  cases related with
  | some related => exact echoes_pure related
  | none => exact rest

theorem echoes_ite {c : Prop} [Decidable c] {r : Reading α} {r' : Reading α'} (hp : Echoes R p q)
    (hr : Echoes R r r') : Echoes R (if c then p else r) (if c then q else r') := by
  split
  · exact hp
  · exact hr

end Rules

end Reading

/-! ## What is kept as it is written -/

/-- The base keeps a part of the text as it is written: the text of a string that nobody quoted, or the body of
a function. -/
def Base.keepsText : Base → Bool
  | .literal _ implicit => implicit
  | .function _ => true
  | _ => false

/-- No part of the text is kept in the tree as it is written. -/
def Expr.Written (e : Expr) : Prop := e.Throughout fun b => b.keepsText = false

/-- The same of a base. -/
def Base.Written (b : Base) : Prop := b.Throughout fun b => b.keepsText = false

/-- The same of some trees. -/
def Expr.AllWritten (es : List Expr) : Prop := Expr.AllThroughout (fun b => b.keepsText = false) es

/-- The same of some accessors. -/
def Accessor.AllWritten (accs : List Accessor) : Prop := Accessor.AllThroughout (fun b => b.keepsText = false) accs

section Written

variable {b : Base} {e : Expr} {es : List Expr} {accs : List Accessor} {pos : Position}

theorem Expr.written_atom : (Expr.atom b accs pos).Written ↔ b.Written ∧ Accessor.AllWritten accs := by
  rw [Expr.Written, Expr.Throughout, Base.Written, Accessor.AllWritten]

theorem Expr.operandwise_written : Expr.Operandwise Expr.Written := Expr.operandwise_throughout _

theorem Expr.allWritten_cons : Expr.AllWritten (e :: es) ↔ e.Written ∧ Expr.AllWritten es := by
  rw [Expr.AllWritten, Expr.AllThroughout, Expr.Written, Expr.AllWritten]

theorem Base.written_call {name : String} {fn : FunctionRef} :
    (Base.call name fn es pos).Written ↔ Expr.AllWritten es := by
  rw [Base.Written, Base.Throughout]
  exact and_iff_right rfl

theorem Base.written_object {keys : List String} : (Base.object keys es).Written ↔ Expr.AllWritten es := by
  rw [Base.Written, Base.Throughout]
  exact and_iff_right rfl

theorem Base.written_array : (Base.array es).Written ↔ Expr.AllWritten es := by
  rw [Base.Written, Base.Throughout]
  exact and_iff_right rfl

theorem Accessor.allWritten_dot {name : String} :
    Accessor.AllWritten (.dot name :: accs) ↔ Accessor.AllWritten accs := by
  rw [Accessor.AllWritten, Accessor.AllThroughout, Accessor.AllWritten]

theorem Accessor.allWritten_index : Accessor.AllWritten (.index e :: accs) ↔ e.Written ∧ Accessor.AllWritten accs := by
  rw [Accessor.AllWritten, Accessor.AllThroughout, Accessor.AllWritten, Expr.Written]

/-- What keeps a part of the text is not written. -/
theorem Base.not_written_of_keepsText (keeps : b.keepsText = true) : ¬b.Written := by
  intro written
  have other : b.keepsText = false := Base.Throughout.self written
  rw [keeps] at other
  cases other

end Written

/-- The second result is the first one if that has the property. -/
def Keeps {α : Type} (P : α → Prop) (a a' : α) : Prop := P a → a' = a

theorem Keeps.refl {α : Type} (P : α → Prop) (a : α) : Keeps P a a := fun _ => rfl

theorem Keeps.cons {e e' : Expr} {es es' : List Expr} (first : Keeps Expr.Written e e')
    (others : Keeps Expr.AllWritten es es') : Keeps Expr.AllWritten (e :: es) (e' :: es') := by
  intro written
  obtain ⟨head, tail⟩ := Expr.allWritten_cons.1 written
  rw [first head, others tail]

/-- The results are related, and the second reading has come to the same place. -/
def Alongside {α : Type} (R : α → α → Prop) (r r' : α × Cursor) : Prop :=
  R r.1 r'.1 ∧ r.2.rest.Unquoted ∧ r'.2 = r.2.spaced

/-- What comes first is the same, and the results are related. -/
def Alike {α β : Type} (R : α → α → Prop) (r r' : β × α × Cursor) : Prop := r'.1 = r.1 ∧ Alongside R r.2 r'.2

/-- An expression that begins behind white space is echoed with spaces for parentheses. -/
def ExprReader.Echoed (self : ExprReader) : Prop :=
  ∀ term c, term.Blind → c.Clear → c.rest.Unquoted →
    Reading.Echoes (Alongside (Keeps Expr.Written)) (self term c) (self term c.spaced)

namespace Reading

section Steps

variable {α β β' : Type} {R : α → α → Prop} {S : β → β' → Prop} {p q : Reading (α × Cursor)}

/-- What comes after a reading goes on at the same place. -/
theorem Echoes.along (hp : Echoes (Alongside R) p q) {h : α × Cursor → Reading β} {h' : α × Cursor → Reading β'}
    (next : ∀ a a' d, R a a' → d.rest.Unquoted → Echoes S (h (a, d)) (h' (a', d.spaced))) :
    Echoes S (p >>= h) (q >>= h') := by
  refine hp.bind fun r r' related => ?_
  obtain ⟨a, d⟩ := r
  obtain ⟨a', d'⟩ := r'
  obtain ⟨same, unquoted, rfl⟩ := related
  exact next a a' d same unquoted

/-- What comes after a reading that is only tried. -/
theorem Echoes.tried (hp : Echoes (Alongside R) p q) {h : Option (α × Cursor) → Reading β}
    {h' : Option (α × Cursor) → Reading β'} (missed : Echoes S (h none) (h' none))
    (next : ∀ a a' d, R a a' → d.rest.Unquoted → Echoes S (h (some (a, d))) (h' (some (a', d.spaced)))) :
    Echoes S (p.attempt >>= h) (q.attempt >>= h') := by
  refine hp.attempt.bind fun r r' related => ?_
  cases related with
  | none => exact missed
  | @some r r' related =>
    obtain ⟨a, d⟩ := r
    obtain ⟨a', d'⟩ := r'
    obtain ⟨same, unquoted, rfl⟩ := related
    exact next a a' d same unquoted

end Steps

variable {α : Type} {r r' : Except ParseError (α × Cursor)}

/-- A reader that finds the same, up to the place it has come to. -/
theorem echoes_ofExcept (h : r' = r.map (Prod.map id Cursor.spaced))
    (unquoted : ∀ a d, r = .ok (a, d) → d.rest.Unquoted) :
    Echoes (Alongside Eq) (ofExcept r) (ofExcept r') := by
  subst h
  cases r with
  | error e => exact echoes_fail e e
  | ok r => exact echoes_pure ⟨rfl, unquoted r.1 r.2 rfl, rfl⟩

/-- A reader that finds something in both texts or in neither. -/
theorem echoes_aligned {R : α → α → Prop} (h : Aligned r r')
    (good : ∀ a d, r = .ok (a, d) → d.rest.Unquoted ∧ ∀ a', R a a') :
    Echoes (Alongside R) (ofExcept r) (ofExcept r') := by
  cases h with
  | error e e' => exact echoes_fail e e'
  | ok a a' d =>
    obtain ⟨unquoted, related⟩ := good a d rfl
    exact echoes_pure ⟨related a', unquoted, rfl⟩

theorem echoes_bindingName {c : Cursor} (clear : c.Clear) (unquoted : c.rest.Unquoted) :
    Echoes (Alongside Eq) (ofExcept (bindingName c)) (ofExcept (bindingName c.spaced)) :=
  echoes_ofExcept (bindingName_spaced clear) fun _ _ read => unquoted.of_reaches (passes_bindingName read).reaches

end Reading

/-- Behind a token. -/
theorem Text.Unquoted.token {c d : Cursor} (h : c.rest.Unquoted) {s : String}
    (found : (skipGap c).consume? s = some d) : d.rest.Unquoted :=
  h.of_reaches ((Cursor.reaches_skipGap c).trans (Cursor.reaches_consume? found))

/-! ## Productions that contain expressions -/

theorem keepsText_implicitString {term : Terminator} {c d : Cursor} {b : Base}
    (read : implicitString term c = .ok (b, d)) : b.keepsText = true := by
  unfold implicitString at read
  split at read
  · cases read
  · split at read
    · cases read
    · split at read
      · cases read
      · cases read
        rfl

section Productions

open Reading Cursor

variable {names : Names} {self : ExprReader} (hself : self.Echoed) {term : Terminator} (blind : term.Blind)
  {c : Cursor}

include hself

include blind in
theorem echoes_arguments {tooFew : Nat → Error} (final : ∀ n, (tooFew n).isMismatch = false) (read left : Nat)
    (unquoted : c.rest.Unquoted) :
    Echoes (Alongside (Keeps Expr.AllWritten)) (arguments self tooFew term read left c)
      (arguments self tooFew term read left c.spaced) := by
  induction left generalizing read c with
  | zero => exact echoes_pure ⟨fun _ => rfl, unquoted, rfl⟩
  | succ left ih =>
    have here := unquoted.of_reaches (reaches_skipGap c)
    have stops : Behind.noArgument term (skipGap c).spaced = Behind.noArgument term (skipGap c) := by
      rw [Behind.noArgument, Behind.noArgument, atEnd_spaced, rest_spaced, Terminator.blind_statement, blind]
    have comma : (if left = 0 then term else term.or (Terminator.tokens [","])).Blind := by
      split
      · exact blind
      · exact blind.or (Terminator.blind_tokens (by decide))
    rw [Behind.noArgument, Behind.noArgument] at stops
    rw [arguments, arguments]
    dsimp only
    rw [skipGap_spaced, stops]
    refine echoes_ite (echoes_throw_bind (final read) _ _) ?_
    refine (hself _ _ comma (clear_skipGap c) here).tried (echoes_throw (final read)) fun arg arg' d same unquoted => ?_
    refine echoes_ite (echoes_pure ⟨.cons same (.refl _ []), unquoted, rfl⟩) ?_
    rw [skipGap_spaced, consume?_spaced (by decide)]
    cases found : (skipGap d).consume? "," with
    | none => exact echoes_throw (final _)
    | some e =>
      refine (ih (read + 1) (unquoted.token found)).bind fun rest rest' related => ?_
      exact echoes_pure ⟨.cons same related.1, related.2⟩

include blind in
theorem echoes_call (strict : Bool) (clear : c.Clear) (unquoted : c.rest.Unquoted) :
    Echoes (Alongside (Keeps Base.Written)) (call names self strict term c)
      (call names self strict term c.spaced) := by
  refine (echoes_bindingName clear unquoted).along fun name name' d same unquoted => ?_
  subst same
  dsimp only
  cases names.callee? strict name with
  | none => exact echoes_fail _ _
  | some fn =>
    refine (echoes_arguments hself blind (fun _ => rfl) 0 _ unquoted).bind fun r r' related => ?_
    refine echoes_pure ⟨fun written => ?_, related.2⟩
    exact congrArg (Base.call name fn · c.pos) (related.1 (Base.written_call.1 written))

omit hself in
theorem echoes_variableName (clear : c.Clear) (unquoted : c.rest.Unquoted) :
    Echoes (Alongside (Keeps Base.Written)) (variableName names c) (variableName names c.spaced) := by
  refine (echoes_bindingName clear unquoted).along fun name name' d same unquoted => ?_
  subst same
  dsimp only
  cases names.value? name with
  | none => exact echoes_fail _ _
  | some v => exact (echoes_note name).bind fun _ _ _ => echoes_pure ⟨fun _ => rfl, unquoted, rfl⟩

theorem echoes_objectEntries (fuel : Nat) (unquoted : c.rest.Unquoted) :
    Echoes (Alike (Keeps Expr.AllWritten)) (objectEntries self fuel c) (objectEntries self fuel c.spaced) := by
  induction fuel generalizing c with
  | zero => exact echoes_throw rfl
  | succ fuel ih =>
    have here := unquoted.of_reaches (reaches_skipGap c)
    rw [objectEntries, objectEntries]
    dsimp only
    rw [skipGap_spaced, consume?_spaced (by decide)]
    cases close : (skipGap c).consume? "\x7d" with
    | some d => exact echoes_pure ⟨rfl, fun _ => rfl, unquoted.token close, rfl⟩
    | none =>
      refine (echoes_ofExcept (objectKey_spaced here) fun key d read =>
        here.of_reaches (passes_objectKey read).reaches).along fun key key' d same unquoted => ?_
      subst same
      dsimp only
      rw [skipGap_spaced, consume?_spaced (by decide)]
      cases colon : (skipGap d).consume? ":" with
      | none => exact echoes_fail _ _
      | some e =>
        have behind := (unquoted.token colon).of_reaches (reaches_skipGap e)
        dsimp only [Option.map_some]
        rw [skipGap_spaced]
        refine (hself _ _ (Terminator.blind_tokens (by decide)) (clear_skipGap e) behind).along
          fun value value' f same unquoted => ?_
        dsimp only
        rw [skipGap_spaced, consume?_spaced (by decide), consume?_spaced (by decide)]
        cases comma : (skipGap f).consume? "," with
        | some g =>
          refine (ih (unquoted.token comma)).bind fun rest rest' related => ?_
          exact echoes_pure ⟨congrArg (key :: ·) related.1, .cons same related.2.1, related.2.2⟩
        | none =>
          dsimp only [Option.map_none]
          cases close : (skipGap f).consume? "\x7d" with
          | some g => exact echoes_pure ⟨rfl, .cons same (.refl _ []), unquoted.token close, rfl⟩
          | none => exact echoes_fail _ _

theorem echoes_object (fuel : Nat) (unquoted : c.rest.Unquoted) :
    Echoes (Alongside (Keeps Base.Written)) (object self fuel c) (object self fuel c.spaced) := by
  unfold object
  rw [consume?_spaced (by decide)]
  cases opened : c.consume? "\x7b" with
  | none => exact echoes_fail _ _
  | some d =>
    have inside := unquoted.of_reaches (reaches_consume? opened)
    refine (echoes_objectEntries hself fuel inside).bind fun r r' related => ?_
    obtain ⟨keys, values, e⟩ := r
    obtain ⟨keys', values', e'⟩ := r'
    obtain ⟨rfl, same, behind⟩ := related
    exact echoes_pure ⟨fun written => congrArg (Base.object keys') (same (Base.written_object.1 written)), behind⟩

theorem echoes_arrayElements (fuel : Nat) (unquoted : c.rest.Unquoted) :
    Echoes (Alongside (Keeps Expr.AllWritten)) (arrayElements self fuel c) (arrayElements self fuel c.spaced) := by
  induction fuel generalizing c with
  | zero => exact echoes_throw rfl
  | succ fuel ih =>
    have here := unquoted.of_reaches (reaches_skipGap c)
    rw [arrayElements, arrayElements]
    dsimp only
    rw [skipGap_spaced, consume?_spaced (by decide)]
    cases close : (skipGap c).consume? "]" with
    | some d => exact echoes_pure ⟨fun _ => rfl, unquoted.token close, rfl⟩
    | none =>
      refine (hself _ _ (Terminator.blind_tokens (by decide)) (clear_skipGap c) here).along
        fun first first' d same unquoted => ?_
      dsimp only
      rw [skipGap_spaced, consume?_spaced (by decide), consume?_spaced (by decide)]
      cases comma : (skipGap d).consume? "," with
      | some e =>
        refine (ih (unquoted.token comma)).bind fun rest rest' related => ?_
        exact echoes_pure ⟨.cons same related.1, related.2⟩
      | none =>
        dsimp only [Option.map_none]
        cases close : (skipGap d).consume? "]" with
        | some e => exact echoes_pure ⟨.cons same (.refl _ []), unquoted.token close, rfl⟩
        | none => exact echoes_fail _ _

theorem echoes_array (fuel : Nat) (unquoted : c.rest.Unquoted) :
    Echoes (Alongside (Keeps Base.Written)) (array self fuel c) (array self fuel c.spaced) := by
  unfold array
  rw [consume?_spaced (by decide)]
  cases opened : c.consume? "[" with
  | none => exact echoes_fail _ _
  | some d =>
    have inside := unquoted.of_reaches (reaches_consume? opened)
    refine (echoes_arrayElements hself fuel inside).bind fun r r' related => ?_
    refine echoes_pure ⟨fun written => ?_, related.2⟩
    exact congrArg Base.array (related.1 (Base.written_array.1 written))

theorem echoes_accessors (fuel : Nat) (unquoted : c.rest.Unquoted) :
    Echoes (Alongside (Keeps Accessor.AllWritten)) (accessors self fuel c) (accessors self fuel c.spaced) := by
  induction fuel generalizing c with
  | zero => exact echoes_throw rfl
  | succ fuel ih =>
    obtain ⟨t, p⟩ := c
    have nothing : Echoes (Alongside (Keeps Accessor.AllWritten)) (pure ([], ⟨t, p⟩) : Reading _)
        (pure ([], Cursor.spaced ⟨t, p⟩)) := echoes_pure ⟨.refl _ [], unquoted, rfl⟩
    cases t with
    | nil => exact nothing
    | cons x t =>
      have later := unquoted.of_reaches (reaches_next ⟨x :: t, p⟩)
      by_cases dot : x = '.'
      · subst dot
        change Echoes _ (accessors self (fuel + 1) ⟨'.' :: t, p⟩)
          (accessors self (fuel + 1) ⟨'.' :: Text.spaced t, p⟩)
        have named := identifier_spaced Terminator.blind_name ⟨t, p.after '.'⟩
        rw [accessors_dot, accessors_dot]
        rw [Cursor.spaced] at named
        rw [named]
        cases read : identifier Terminator.name ⟨t, p.after '.'⟩ with
        | error e => exact nothing
        | ok r =>
          have behind := later.of_reaches (passes_identifier read).reaches
          refine (ih behind).bind fun r' r'' related => echoes_pure ⟨fun written => ?_, related.2⟩
          exact congrArg (Accessor.dot r.1 :: ·) (related.1 (Accessor.allWritten_dot.1 written))
      by_cases bracket : x = '['
      · subst bracket
        change Echoes _ (accessors self (fuel + 1) ⟨'[' :: t, p⟩)
          (accessors self (fuel + 1) ⟨'[' :: Text.spaced t, p⟩)
        have gap := skipGap_spaced ⟨t, p.after '['⟩
        rw [accessors_index, accessors_index]
        rw [Cursor.spaced] at gap
        rw [gap]
        refine (hself _ _ (Terminator.blind_tokens (by decide)) (clear_skipGap _)
          (later.of_reaches (reaches_skipGap _))).tried nothing fun e e' d same unquoted => ?_
        dsimp only
        rw [skipGap_spaced, consume?_spaced (by decide)]
        cases close : (skipGap d).consume? "]" with
        | none => exact nothing
        | some f =>
          refine (ih (unquoted.token close)).bind fun r r' related => echoes_pure ⟨fun written => ?_, related.2⟩
          obtain ⟨index, others⟩ := Accessor.allWritten_index.1 written
          exact congrArg₂ (fun e accs => Accessor.index e :: accs) (same index) (related.1 others)
      · have other {y : Char} (solid : isLayout y = false) (apart : x ≠ y) : spaceOf x ≠ y :=
          mt (spaceOf_eq_iff solid x).1 apart
        rw [accessors_other (by rintro _ ⟨⟩; exact ⟨dot, bracket⟩)]
        rw [accessors_other (by rintro _ ⟨⟩; exact ⟨other rfl dot, other rfl bracket⟩)]
        exact nothing

/-! ## Atoms -/

omit hself in
theorem echoes_literalBase (unquoted : c.rest.Unquoted) :
    Echoes (Alongside (Keeps Base.Written)) (literalBase c) (literalBase c.spaced) := by
  have same := literal_spaced unquoted
  unfold literalBase
  rw [same]
  cases read : literal c with
  | error e => exact echoes_fail e e
  | ok r => exact echoes_pure ⟨.refl _ _, unquoted.of_reaches (passes_literal read).reaches, rfl⟩

omit hself in
include blind in
/-- Of a function the body is kept, and so nothing is said about it. -/
theorem echoes_functionBase (unquoted : c.rest.Unquoted) :
    Echoes (Alongside (Keeps Base.Written)) (functionBase term c) (functionBase term c.spaced) := by
  refine echoes_aligned ((aligned_functionLiteral blind unquoted).map Base.function) fun b d read => ?_
  cases found : functionLiteral term c with
  | error e =>
    rw [found] at read
    cases read
  | ok r =>
    rw [found] at read
    cases read
    exact ⟨unquoted.of_reaches (passes_functionLiteral found).reaches,
      fun b' written => absurd written (Base.not_written_of_keepsText rfl)⟩

omit hself in
include blind in
theorem echoes_implicitBase (clear : c.Clear) (unquoted : c.rest.Unquoted) :
    Echoes (Alongside (Keeps Base.Written)) (implicitBase term c) (implicitBase term c.spaced) := by
  refine echoes_aligned (aligned_implicitString blind clear unquoted) fun b d read => ?_
  refine ⟨unquoted.of_reaches (passes_implicitString read).reaches, fun b' written => ?_⟩
  exact absurd written (Base.not_written_of_keepsText (keepsText_implicitString read))

include blind in
theorem echoes_base (fuel : Nat) (clear : c.Clear) (unquoted : c.rest.Unquoted) :
    Echoes (Alongside (Keeps Base.Written)) (base names self fuel term c) (base names self fuel term c.spaced) := by
  unfold base
  refine echoes_firstOf_cons (echoes_call hself blind true clear unquoted) ?_
  refine echoes_firstOf_cons (echoes_variableName clear unquoted) ?_
  refine echoes_firstOf_cons (echoes_literalBase unquoted) ?_
  refine echoes_firstOf_cons (echoes_object hself fuel unquoted) ?_
  refine echoes_firstOf_cons (echoes_array hself fuel unquoted) ?_
  refine echoes_firstOf_cons (echoes_functionBase blind unquoted) ?_
  refine echoes_firstOf_cons (echoes_implicitBase blind clear unquoted) ?_
  exact echoes_fail _ _

include blind in
theorem echoes_atom (fuel : Nat) (clear : c.Clear) (unquoted : c.rest.Unquoted) :
    Echoes (Alongside (Keeps Expr.Written)) (atom names self fuel term c) (atom names self fuel term c.spaced) := by
  refine (echoes_base hself blind fuel clear unquoted).along fun b b' d same unquoted => ?_
  refine (echoes_accessors hself fuel unquoted).bind fun r r' related => echoes_pure ⟨fun written => ?_, related.2⟩
  obtain ⟨base, accs⟩ := Expr.written_atom.1 written
  exact congrArg₂ (Expr.atom · · c.pos) (same base) (related.1 accs)

/-! ## Operands and operations -/

omit hself in
/-- White space is passed behind every prefix operator. -/
theorem clear_runsFrom (p : Position) (runs : List UnaryRun) (n : Nat) {t : Text}
    (clear : Cursor.Clear ⟨t.drop n, p⟩) : Cursor.Clear ⟨t.drop (runsFrom runs n t).2, p⟩ := by
  induction t generalizing runs n with
  | nil =>
    rw [Cursor.Clear, List.drop_nil]
    exact nofun
  | cons x t ih =>
    cases n with
    | succ n =>
      rw [runsFrom]
      exact ih runs n clear
    | zero =>
      rw [runsFrom]
      cases unaryOfChar? x with
      | none => exact clear
      | some op =>
        have behind := clear_skipGap ⟨t, p⟩
        rw [skipGap, skip_eq] at behind
        exact ih _ (gap t) behind

omit hself in
theorem clear_unaryRuns (clear : c.Clear) : (unaryRuns c).2.Clear := by
  unfold unaryRuns
  dsimp only
  rw [skip_eq]
  exact clear_runsFrom _ [] 0 clear

include blind in
theorem echoes_operand (fuel : Nat) (clear : c.Clear) (unquoted : c.rest.Unquoted) :
    Echoes (Alike (Keeps Expr.Written)) (operand names self fuel term c) (operand names self fuel term c.spaced) := by
  have plain : Echoes (Alike (Keeps Expr.Written))
      (atom names self fuel term c >>= fun r => pure (([] : List UnaryRun), r.1, r.2))
      (atom names self fuel term c.spaced >>= fun r => pure ([], r.1, r.2)) :=
    (echoes_atom hself blind fuel clear unquoted).bind fun _ _ related => echoes_pure ⟨rfl, related⟩
  have clear := clear_unaryRuns clear
  have reach : c.Reaches (unaryRuns c).2 := reaches_unaryRuns rfl
  unfold operand
  rw [unaryRuns_spaced]
  generalize unaryRuns c = r at clear reach
  obtain ⟨runs, d⟩ := r
  cases runs with
  | nil => exact plain
  | cons run runs =>
    refine (echoes_atom hself blind fuel clear (unquoted.of_reaches reach)).attempt.bind fun r r' related => ?_
    cases related with
    | none => exact plain
    | some related => exact echoes_pure ⟨rfl, related⟩

/-- The second fold is the first one if nothing is kept as it is written in its operands. -/
structure Fold.Kept (f f' : Fold) : Prop where
  balanced : f.Balanced
  same : Keeps (Fold.All Expr.Written) f f'

omit hself in
theorem Fold.kept_operand (runs : List UnaryRun) {e e' : Expr} (same : Keeps Expr.Written e e') :
    Fold.Kept (Fold.pushOperand {} runs e) (Fold.pushOperand {} runs e') where
  balanced := Fold.balanced_operand runs e
  same written := by rw [same ((Fold.all_pushOperand {} runs e).1 written).1]

omit hself in
theorem Fold.Kept.link {f f' : Fold} (h : f.Kept f') (op : BinaryOp) (width : Nat) (runs : List UnaryRun)
    {e e' : Expr} (same : Keeps Expr.Written e e') :
    Fold.Kept ((f.pushBinary op width).pushOperand runs e) ((f'.pushBinary op width).pushOperand runs e') where
  balanced := h.balanced.link op width runs e
  same written := by
    rw [Fold.all_pushOperand, Fold.all_pushBinary Expr.operandwise_written] at written
    rw [same written.1, h.same written.2]

omit hself in
/-- The trees that the folds end with. -/
theorem Fold.Kept.headD {f f' : Fold} (h : f.Kept f') (e e' : Expr) :
    Keeps Expr.Written (f.finish.headD e) (f'.finish.headD e') := by
  intro written
  obtain ⟨tree, single⟩ := List.length_eq_one_iff.1 h.balanced.length_finish
  rw [h.same ((h.balanced.headD_iff Expr.operandwise_written e).1 written), single]
  rfl

include blind in
theorem echoes_operations (fuel left : Nat) {f f' : Fold} (kept : f.Kept f') (unquoted : c.rest.Unquoted) :
    Echoes (Alongside Fold.Kept) (operations names self fuel term left f c)
      (operations names self fuel term left f' c.spaced) := by
  induction left generalizing f f' c with
  | zero => exact echoes_throw rfl
  | succ left ih =>
    have nothing : Echoes (Alongside Fold.Kept) (pure (f, c)) (pure (f', c.spaced)) :=
      echoes_pure ⟨kept, unquoted, rfl⟩
    have here := unquoted.of_reaches (reaches_skipGap c)
    rw [operations, operations]
    dsimp only [measureGap]
    rw [skipGap_spaced, atEnd_spaced, rest_spaced, blind, binaryOperator_spaced]
    refine echoes_ite nothing ?_
    cases found : binaryOperator (skipGap c) with
    | error e => exact nothing
    | ok r =>
      obtain ⟨op, d⟩ := r
      have behind := here.of_reaches ((passes_binaryOperator found).reaches.trans (reaches_skipGap d))
      dsimp only [Except.map, Prod.map_apply, id]
      rw [skipGap_spaced, rest_spaced, rest_spaced, gap_spaced, gap_spaced]
      refine (echoes_operand hself blind fuel (clear_skipGap d) behind).attempt.bind fun r r' related => ?_
      cases related with
      | none => exact nothing
      | @some r r' related =>
        obtain ⟨runs, e, d⟩ := r
        obtain ⟨runs', e', d'⟩ := r'
        obtain ⟨alike, same, unquoted, rfl⟩ := related
        obtain rfl : runs' = runs := alike
        exact ih (kept.link _ _ _ same) unquoted

theorem echoed_expressionWith (fuel : Nat) : ExprReader.Echoed (expressionWith names self fuel) := by
  intro term c blind clear unquoted
  refine (echoes_operand hself blind fuel clear unquoted).bind fun r r' related => ?_
  obtain ⟨runs, e, d⟩ := r
  obtain ⟨runs', e', d'⟩ := r'
  obtain ⟨alike, same, unquoted, rfl⟩ := related
  obtain rfl : runs' = runs := alike
  refine (echoes_operations hself blind fuel fuel (Fold.kept_operand runs' same) unquoted).along
    fun f f' d kept unquoted => ?_
  exact echoes_pure ⟨kept.headD e e', unquoted, rfl⟩

end Productions

/-! ## Expressions -/

theorem echoed_expressionAt (names : Names) (n : Nat) : (expressionAt names n).Echoed := by
  induction n with
  | zero => exact fun _ _ _ _ _ => Reading.echoes_throw rfl
  | succ n ih => exact echoed_expressionWith ih n

section Layout

open Reading

variable {names : Names} {n : Nat} {term : Terminator} {x : Char} {t : Text} {p : Position} {l l' : List String}
  {d : Cursor}

/-- What the characters of white space have in common. -/
theorem layout_begins_nothing (layout : isLayout x = true) : isQuote x = false ∧ x.isDigit = false ∧
    x ∉ wordStarts ∧ unaryOfChar? x = none ∧ x ≠ '[' ∧ x ≠ '\x7b' := by
  have all : ∀ y ∈ edges, isLayout y = true → isQuote y = false ∧ y.isDigit = false ∧
      y ∉ wordStarts ∧ unaryOfChar? y = none ∧ y ≠ '[' ∧ y ≠ '\x7b' := by decide
  obtain ⟨y, among, u, same⟩ := edged_of_layout layout []
  cases same
  exact all x among layout

theorem Cursor.layout_of_not_clear (h : ¬Cursor.Clear ⟨t, p⟩) : ∃ x u, t = x :: u ∧ isLayout x = true := by
  cases t with
  | nil => exact absurd nofun h
  | cons x u =>
    refine ⟨x, u, rfl, eq_true_of_ne_false fun solid => h ?_⟩
    rintro _ ⟨⟩
    exact solid

/-- A name does not begin with white space. -/
theorem bindingName_layout (layout : isLayout x = true) : ∃ e, bindingName ⟨x :: t, p⟩ = .error e := by
  unfold bindingName identifier
  dsimp only
  rw [wordLength, if_pos layout]
  split
  · exact ⟨_, rfl⟩
  · exact ⟨_, rfl⟩

/-- Only a function or a text nobody quoted begins with white space. -/
theorem keepsText_of_base {self : ExprReader} {fuel : Nat} {b : Base} (layout : isLayout x = true)
    (read : base names self fuel term ⟨x :: t, p⟩ l = .ok (b, d) l') : b.keepsText = true := by
  obtain ⟨quote, digit, start, -, bracket, brace⟩ := layout_begins_nothing layout
  obtain ⟨e, unnamed⟩ := bindingName_layout (t := t) (p := p) layout
  have unopened {s : String} {y : Char} (hs : s.toList = [y]) (apart : x ≠ y) :
      Cursor.consume? ⟨x :: t, p⟩ s = none := consume?_eq_none hs apart.symm p
  have noName {α : Type} {h : String × Cursor → Reading α} {a : α} {l l' : List String}
      (run : (ofExcept (bindingName ⟨x :: t, p⟩) >>= h) l = .ok a l') : False := by
    obtain ⟨r, m, named, -⟩ := ok_of_bind run
    rw [unnamed] at named
    cases named
  unfold base at read
  rcases ok_of_firstOf read with called | ⟨_, _, -, read⟩
  · exact (noName called).elim
  rcases ok_of_firstOf read with named | ⟨_, _, -, read⟩
  · exact (noName named).elim
  rcases ok_of_firstOf read with literal | ⟨_, _, -, read⟩
  · rw [literalBase, literal_eq_error quote digit start] at literal
    cases literal
  rcases ok_of_firstOf read with object | ⟨_, _, -, read⟩
  · rw [Gapscript.object, unopened rfl brace] at object
    cases object
  rcases ok_of_firstOf read with array | ⟨_, _, -, read⟩
  · rw [Gapscript.array, unopened rfl bracket] at array
    cases array
  rcases ok_of_firstOf read with function | ⟨_, _, -, read⟩
  · unfold functionBase at function
    cases found : functionLiteral term ⟨x :: t, p⟩ with
    | error e =>
      rw [found] at function
      cases function
    | ok r =>
      rw [found] at function
      cases function
      rfl
  rcases ok_of_firstOf read with implicit | ⟨_, _, -, read⟩
  · unfold implicitBase at implicit
    cases found : implicitString term ⟨x :: t, p⟩ with
    | error e =>
      rw [found] at implicit
      cases implicit
    | ok r =>
      rw [found] at implicit
      cases implicit
      exact keepsText_implicitString found
  · cases read

/-- An expression that begins with white space keeps a part of the text as it is written. -/
theorem not_written_of_layout {e : Expr} (layout : isLayout x = true)
    (read : expressionAt names n term ⟨x :: t, p⟩ l = .ok (e, d) l') : ¬e.Written := by
  cases n with
  | zero => cases read
  | succ n =>
    obtain ⟨⟨runs, tree, c⟩, m, first, rest⟩ := ok_of_bind
      (show expressionWith names (expressionAt names n) n term ⟨x :: t, p⟩ l = _ from read)
    obtain ⟨⟨f, c'⟩, m', more, last⟩ := ok_of_bind rest
    cases last
    have balanced := Fold.balanced_operand runs tree
    obtain ⟨finished, operands⟩ := Behind.operands_of_operations Expr.operandwise_written balanced more
    intro written
    have every := operands ((finished.headD_iff Expr.operandwise_written tree).1 written)
    have operand := ((Fold.all_pushOperand {} runs tree).1 every).1
    obtain ⟨-, -, -, unprefixed, -⟩ := layout_begins_nothing layout
    rcases step_of_operand first with ⟨some, -⟩ | ⟨-, k, atom, -⟩
    · rw [Behind.unaryRuns_nil unprefixed] at some
      exact some rfl
    · obtain ⟨⟨b, g⟩, k', based, behind⟩ := ok_of_bind atom
      obtain ⟨⟨accs, h⟩, _, -, done⟩ := ok_of_bind behind
      cases done
      exact Base.not_written_of_keepsText (keepsText_of_base layout based) (Expr.written_atom.1 operand).1

end Layout

/-- Parentheses weigh as much as spaces and mean nothing else. If an expression without quotes and backslashes is
read, and no text and no function stands in its tree as it is written, then the text with a space for every
parenthesis is read as the same tree, with the same places, up to the same character. -/
theorem parentheses_read_as_spaces (names : Names) (t : Text) (p : Position) (l l' : List String) (e : Expr)
    (d : Cursor) (unquoted : t.Unquoted) (read : expression names Terminator.never ⟨t, p⟩ l = .ok (e, d) l')
    (plain : ∀ ps b accs pos, e.Contains ps (.atom b accs pos) → b.keepsText = false) :
    expression names Terminator.never ⟨Text.spaced t, p⟩ l = .ok (e, d.spaced) l' := by
  have written : e.Written := Expr.throughout_iff.2 plain
  rw [expression] at read
  rw [expression, Text.length_spaced]
  by_cases clear : Cursor.Clear ⟨t, p⟩
  · have echo :=
      echoed_expressionAt names (t.length + 1) Terminator.never ⟨t, p⟩ Terminator.blind_never clear unquoted l
    rw [read] at echo
    generalize there : expressionAt names (t.length + 1) Terminator.never (Cursor.spaced ⟨t, p⟩) l = r at echo
    cases echo with
    | @ok _ r related =>
      obtain ⟨e', d'⟩ := r
      obtain ⟨same, -, rfl⟩ := related
      obtain rfl : e' = e := same written
      exact there
  · obtain ⟨x, u, rfl, layout⟩ := Cursor.layout_of_not_clear clear
    exact absurd written (not_written_of_layout layout read)

/-- Parentheses around an element, around an index and around a sum. -/
def groupedText : Text := "[1n, (2n)][(0n)] * (3n+4n)".toList

/-- What is read in it; a big integer stands at every column. -/
def groupedTree : Expr :=
  let bigint (n column : Int) := Expr.atom (.literal (.bigint n) false) [] { column := column, offset := column - 1 }
  .binary .mul (.atom (.array [bigint 1 2, bigint 2 7]) [.index (bigint 0 13)] {})
    (.binary .add (bigint 3 21) (bigint 4 24))

theorem parentheses_read_as_spaces_grouped :
    Text.spaced groupedText = "[1n,  2n ][ 0n ] *  3n+4n ".toList ∧ groupedText.Unquoted ∧
      expression ({} : State).names Terminator.never ⟨groupedText, {}⟩ [] =
        .ok (groupedTree, ⟨[')'], { column := 26, offset := 25 }⟩) [] ∧
      (∀ ps b accs pos, groupedTree.Contains ps (.atom b accs pos) → b.keepsText = false) ∧
      expression ({} : State).names Terminator.never ⟨Text.spaced groupedText, {}⟩ [] =
        .ok (groupedTree, ⟨[' '], { column := 26, offset := 25 }⟩) [] := by
  have unquoted : groupedText.Unquoted := by decide
  have read : expression ({} : State).names Terminator.never ⟨groupedText, {}⟩ [] =
      .ok (groupedTree, ⟨[')'], { column := 26, offset := 25 }⟩) [] := by rfl
  have plain : ∀ ps b accs pos, groupedTree.Contains ps (.atom b accs pos) → b.keepsText = false :=
    Expr.throughout_iff.1 (by simp [groupedTree, Expr.Throughout, Base.Throughout, Expr.AllThroughout,
      Accessor.AllThroughout, Base.keepsText])
  exact ⟨by decide, unquoted, read, plain, parentheses_read_as_spaces _ _ _ _ _ _ _ unquoted read plain⟩

end Gapscript
