import Gapscript.Proofs.Reading.Budget
import Gapscript.Statement.Parser

/-!
# Where operands stand

An atom keeps the place of the cursor that it was read from. `e.Placed o` says so of every atom of a tree
that was read from a text against some names, its `Origin`: its place is that of a cursor in this text, and
against these names the atom is what stands there. A reading of the text that fails `Stops` at such a cursor,
and what stands there is refused (`Origin.Refuses`). Mismatches are left open inside of alternatives, which
only pass them on to the next one.
-/

namespace Gapscript

open Lexical Cursor Reading

/-! ## How a reading ends -/

namespace Reading

variable {α β : Type}

/-- The reading ends with something that `Q` holds of, or with a failure that `E` permits. -/
structure Concludes (E : Error → Prop) (p : Reading α) (Q : α → Prop) : Prop where
  ok : ∀ {l a l'}, p l = .ok a l' → Q a
  error : ∀ {l e l'}, p l = .error e l' → E e

/-- The failure is a mismatch or permitted. -/
def OrMismatch (E : Error → Prop) (e : Error) : Prop := e.isMismatch = true ∨ E e

variable {E : Error → Prop} {P Q : α → Prop}

theorem concludes_pure {a : α} (h : Q a) : Concludes E (pure a) Q := by
  refine ⟨?_, (nomatch ·)⟩
  rintro l a l' ⟨⟩
  exact h

theorem concludes_throw {e : Error} (h : E e) : Concludes E (throw e : Reading α) Q := by
  refine ⟨(nomatch ·), ?_⟩
  rintro l e l' ⟨⟩
  exact h

theorem concludes_fail (e : ParseError) : Concludes (OrMismatch E) (fail e : Reading α) Q :=
  concludes_throw (.inl rfl)

theorem concludes_ofExcept {r : Except ParseError α} (h : ∀ a, r = .ok a → Q a) :
    Concludes (OrMismatch E) (ofExcept r) Q := by
  cases r with
  | ok a => exact concludes_pure (h a rfl)
  | error e => exact concludes_fail e

theorem Concludes.of_outcome_ok {p : Reading α} (h : Concludes E p Q) {a : α} (read : p.outcome = .ok a) : Q a := by
  unfold Reading.outcome at read
  split at read
  · next run =>
    cases read
    exact h.ok run
  · cases read

theorem Concludes.permit {p : Reading α} {F : Error → Prop} (h : Concludes E p Q) (weaken : ∀ e, E e → F e) :
    Concludes F p Q := ⟨h.ok, fun run => weaken _ (h.error run)⟩

theorem Concludes.orMismatch {p : Reading α} (h : Concludes E p Q) : Concludes (OrMismatch E) p Q :=
  ⟨h.ok, fun run => .inr (h.error run)⟩

theorem Concludes.bind {p : Reading α} {f : α → Reading β} {R : β → Prop} (hp : Concludes E p P)
    (hf : ∀ a, P a → Concludes E (f a) R) : Concludes E (p >>= f) R := by
  constructor
  · intro l b l' run
    cases hr : p l with
    | ok a m =>
      rw [bind_of_ok hr] at run
      exact (hf a (hp.ok hr)).ok run
    | error e m =>
      rw [bind_of_error hr] at run
      cases run
  · intro l e l' run
    cases hr : p l with
    | ok a m =>
      rw [bind_of_ok hr] at run
      exact (hf a (hp.ok hr)).error run
    | error e' m =>
      rw [bind_of_error hr] at run
      cases run
      exact hp.error hr

theorem concludes_throw_bind {f : α → Reading β} {R : β → Prop} {e : Error} (h : E e) :
    Concludes E (throw e >>= f) R := (concludes_throw (Q := fun _ => False) h).bind fun _ never => never.elim

/-- A reading that is tried fails only with what is not a mismatch. -/
theorem Concludes.attempt {p : Reading α} (h : Concludes (OrMismatch E) p Q) :
    Concludes E p.attempt fun r => ∀ a, r = some a → Q a := by
  constructor
  · intro l r l' run a same
    subst same
    cases hr : p l with
    | ok b m =>
      rw [attempt_of_ok hr] at run
      cases run
      exact h.ok hr
    | error e m =>
      unfold Reading.attempt at run
      rw [hr] at run
      dsimp only at run
      split at run
      · cases run
      · cases run
  · intro l e l' run
    unfold Reading.attempt at run
    cases hr : p l with
    | ok b m =>
      rw [hr] at run
      cases run
    | error e' m =>
      rw [hr] at run
      dsimp only at run
      split at run
      · cases run
      · next final =>
        cases run
        exact (h.error hr).resolve_left final

/-- Of alternatives, only the last mismatch remains. -/
theorem concludes_firstOf {ps : List (Reading α)} {otherwise : ParseError}
    (each : ∀ p ∈ ps, Concludes (OrMismatch E) p Q) (last : E (.mismatch otherwise)) :
    Concludes E (firstOf otherwise ps) Q := by
  induction ps with
  | nil => exact concludes_throw last
  | cons p ps ih =>
    refine (each p List.mem_cons_self).attempt.bind fun r known => ?_
    cases r with
    | some a => exact concludes_pure (known a rfl)
    | none => exact ih fun q hq => each q (List.mem_cons_of_mem p hq)

theorem Concludes.withNotes {p : Reading α} (h : Concludes E p Q) :
    Concludes E p.withNotes fun r => Q r.1 := by
  constructor
  · intro l r l' run
    unfold Reading.withNotes at run
    cases hr : p [] with
    | ok a own =>
      rw [hr] at run
      cases run
      exact h.ok hr
    | error e own =>
      rw [hr] at run
      cases run
  · intro l e l' run
    unfold Reading.withNotes at run
    cases hr : p [] with
    | ok a own =>
      rw [hr] at run
      cases run
    | error e' own =>
      rw [hr] at run
      cases run
      exact h.error hr

end Reading

/-! ## Where readings stop -/

/-- A text that is read, and the names that it is read against. -/
structure Origin where
  names : Names
  cursor : Cursor

/-- The tree is an atom, and it is what stands under the cursor. -/
inductive Cursor.Reads (names : Names) (d : Cursor) (e : Expr) : Prop
  | atom {term : Terminator} {after : Cursor} (read : (readAtom names term d).outcome = .ok (e, after))
  | call {closes debug : Bool} {after : Cursor}
    (read : statement ⟨names, closes⟩ d = .ok (.call e debug, after))

namespace Origin

variable {o : Origin} {d : Cursor} {e : Error}

/-- What stands under the cursor is refused: a call has too few arguments, the text does not begin with an
operand or a statement, or an expression has left something of it. -/
inductive Refuses (o : Origin) (d : Cursor) (e : Error) : Prop
  | call {strict : Bool} {term : Terminator} {name : String} {arity got : Int}
    (failed : (readCall o.names strict term d).outcome = .error e)
    (tooFew : e = .runtime ⟨.argumentCount name arity got, some d.pos⟩)
  | operand {term : Terminator} (begins : skipGap d = skipGap o.cursor)
    (failed : (readAtom o.names term d).outcome = .error e)
  | rest {tree : Expr} {f : Cursor}
    (read : (expression o.names Terminator.never (skipGap o.cursor)).outcome = .ok (tree, f))
    (left : skipGap f = d) (more : d.atEnd = false)
  | statement {closes : Bool} (begins : d = o.cursor)
    (failed : Gapscript.statement ⟨o.names, closes⟩ d = .error e.settled)

/-- A reading of the text fails where the cursor stands, and what stands there is refused. -/
structure Halts (o : Origin) (d : Cursor) (e : Error) : Prop where
  reached : o.cursor.Reaches d
  place : e.pos? = some d.pos
  refuses : o.Refuses d e

/-- A reading of the text fails somewhere in it. -/
def Stops (o : Origin) (e : Error) : Prop := ∀ p, e.pos? = some p → ∃ d, o.Halts d e

/-- The atom was read in the text, under the cursor. -/
structure Stands (o : Origin) (d : Cursor) (e : Expr) : Prop where
  reached : o.cursor.Reaches d
  reads : d.Reads o.names e

theorem Halts.stops (h : o.Halts d e) : o.Stops e := fun _ _ => ⟨d, h⟩

theorem stops_exhausted (o : Origin) : o.Stops .exhausted := fun _ h => nomatch h

/-- No operand stands under the cursor. -/
structure Bars (o : Origin) (term : Terminator) (d : Cursor) (e : Error) : Prop where
  mismatch : e = .mismatch (noMatch d "expected an expression")
  failed : (readAtom o.names term d).outcome = .error e

/-- A reading stops in the text, or begins with something that is no operand. -/
def StopsAt (o : Origin) (term : Terminator) (d : Cursor) (e : Error) : Prop := o.Stops e ∨ o.Bars term d e

theorem StopsAt.stops {term : Terminator} (h : o.StopsAt term d e) (reached : o.cursor.Reaches d)
    (begins : skipGap d = skipGap o.cursor) : o.Stops e := by
  obtain stops | ⟨rfl, failed⟩ := h
  · exact stops
  · exact Halts.stops ⟨reached, rfl, .operand begins failed⟩

theorem StopsAt.orMismatch {term : Terminator} (h : o.StopsAt term d e) : OrMismatch o.Stops e := by
  obtain stops | ⟨rfl, -⟩ := h
  · exact .inr stops
  · exact .inl rfl

end Origin

/-! ## Places in trees -/

mutual

/-- Every atom of the tree stands in the text, and is what stands there against the names. -/
def Expr.Placed (o : Origin) : Expr → Prop
  | .atom b accs pos =>
    (∃ d, o.Stands d (.atom b accs pos) ∧ d.pos = pos) ∧ b.Placed o pos ∧ Accessor.AllPlaced o accs
  | .unary _ e => e.Placed o
  | .binary _ l r => l.Placed o ∧ r.Placed o

/-- Every atom in the base stands in the text, and a call has the place of the base. -/
def Base.Placed (o : Origin) (here : Position) : Base → Prop
  | .literal .. => True
  | .name .. => True
  | .call _ _ args pos => pos = here ∧ Expr.AllPlaced o args
  | .object _ values => Expr.AllPlaced o values
  | .array elements => Expr.AllPlaced o elements
  | .function _ => True

/-- Every atom of the trees stands in the text. -/
def Expr.AllPlaced (o : Origin) : List Expr → Prop
  | [] => True
  | e :: es => e.Placed o ∧ Expr.AllPlaced o es

/-- Every atom in the accessors stands in the text. -/
def Accessor.AllPlaced (o : Origin) : List Accessor → Prop
  | [] => True
  | .dot _ :: accs => Accessor.AllPlaced o accs
  | .index e :: accs => e.Placed o ∧ Accessor.AllPlaced o accs

end

theorem Expr.allPlaced_iff {o : Origin} {es : List Expr} : AllPlaced o es ↔ ∀ e ∈ es, e.Placed o := by
  induction es with
  | nil => simp [AllPlaced]
  | cons e es ih => rw [AllPlaced, ih, List.forall_mem_cons]

theorem Accessor.allPlaced_iff {o : Origin} {accs : List Accessor} :
    AllPlaced o accs ↔ ∀ e, .index e ∈ accs → e.Placed o := by
  induction accs with
  | nil => simp [AllPlaced]
  | cons acc accs ih => cases acc <;> simp [AllPlaced, ih]

namespace Fold

variable {o : Origin}

theorem placed_unary (op : UnaryOp) (e : Expr) (h : e.Placed o) : (Expr.unary op e).Placed o := by
  rw [Expr.Placed]
  exact h

theorem placed_binary (op : BinaryOp) (l r : Expr) (hl : l.Placed o) (hr : r.Placed o) :
    (Expr.binary op l r).Placed o := by
  rw [Expr.Placed]
  exact ⟨hl, hr⟩

/-- Every atom of the operands stands in the text. -/
def Placed (o : Origin) (f : Fold) : Prop := ∀ e ∈ f.operands, e.Placed o

end Fold

/-! ## Productions -/

/-- What the reader reads in the text stands there. -/
def PlacesIn (o : Origin) (self : ExprReader) : Prop :=
  ∀ term d, o.cursor.Reaches d →
    Concludes (o.StopsAt term d) (self term d) fun r => o.cursor.Reaches r.2 ∧ r.1.Placed o

theorem PlacesIn.tried {o : Origin} {self : ExprReader} (h : PlacesIn o self) (term : Terminator) {d : Cursor}
    (hd : o.cursor.Reaches d) :
    Concludes (OrMismatch o.Stops) (self term d) fun r => o.cursor.Reaches r.2 ∧ r.1.Placed o :=
  (h term d hd).permit fun _ => Origin.StopsAt.orMismatch

section Productions

variable {o : Origin} {names : Names} {self : ExprReader}

theorem concludes_arguments {E : Error → Prop} (stops : ∀ e, o.Stops e → E e) (hself : PlacesIn o self)
    {tooFew : Nat → Error} (few : ∀ k, E (tooFew k)) (term : Terminator) (read left : Nat) {d : Cursor}
    (hd : o.cursor.Reaches d) :
    Concludes E (arguments self tooFew term read left d)
      fun r => o.cursor.Reaches r.2 ∧ Expr.AllPlaced o r.1 := by
  induction left generalizing read d with
  | zero => exact concludes_pure ⟨hd, trivial⟩
  | succ left ih =>
    rw [arguments]
    dsimp only
    split
    · exact concludes_throw_bind (few read)
    · refine ((hself.tried _ hd.skipGap).attempt.permit stops).bind fun r known => ?_
      cases r with
      | none => exact concludes_throw (few read)
      | some r =>
        obtain ⟨first, placed⟩ := known r rfl
        dsimp only
        split
        · exact concludes_pure ⟨first, placed, trivial⟩
        · cases hcomma : (skipGap r.2).consume? "," with
          | none => exact concludes_throw (few (read + 1))
          | some f =>
            have next : o.cursor.Reaches f := first.skipGap.trans (reaches_consume? hcomma)
            exact (ih (read + 1) next).bind fun more hmore => concludes_pure ⟨hmore.1, placed, hmore.2⟩

/-- A call fails where it stands if it has too few arguments. -/
theorem concludes_call (hself : PlacesIn o self) (strict : Bool) (term : Terminator) {d : Cursor}
    (hd : o.cursor.Reaches d) :
    Concludes (OrMismatch fun e => o.Stops e ∨ ∃ name arity got,
        e = .runtime ⟨.argumentCount name arity got, some d.pos⟩)
      (call names self strict term d) fun r => o.cursor.Reaches r.2 ∧ r.1.Placed o d.pos := by
  refine (concludes_ofExcept (Q := fun r => o.cursor.Reaches r.2)
    fun r hr => hd.trans (passes_bindingName hr).reaches).bind ?_
  rintro ⟨name, f⟩ start
  dsimp only
  cases names.callee? strict name with
  | none => exact concludes_fail _
  | some fn =>
    refine (concludes_arguments (fun _ => .inl) hself (fun got => .inr ⟨name, _, got, rfl⟩) term _ _
      start).orMismatch.bind fun r hr => ?_
    exact concludes_pure ⟨hr.1, rfl, hr.2⟩

theorem concludes_variableName {d : Cursor} (hd : o.cursor.Reaches d) :
    Concludes (OrMismatch o.Stops) (variableName names d) fun r => o.cursor.Reaches r.2 ∧ r.1.Placed o d.pos := by
  refine (concludes_ofExcept (Q := fun r => o.cursor.Reaches r.2)
    fun r hr => hd.trans (passes_bindingName hr).reaches).bind ?_
  rintro ⟨name, f⟩ hf
  dsimp only
  cases names.value? name with
  | none => exact concludes_fail _
  | some v =>
    refine Concludes.bind (P := fun _ => True) ⟨fun _ => trivial, (nomatch ·)⟩ fun _ _ => ?_
    exact concludes_pure ⟨hf, trivial⟩

theorem concludes_objectEntries (hself : PlacesIn o self) (fuel : Nat) {d : Cursor} (hd : o.cursor.Reaches d) :
    Concludes (OrMismatch o.Stops) (objectEntries self fuel d)
      fun r => o.cursor.Reaches r.2.2 ∧ Expr.AllPlaced o r.2.1 := by
  induction fuel generalizing d with
  | zero => exact concludes_throw (.inr o.stops_exhausted)
  | succ fuel ih =>
    rw [objectEntries]
    cases hclose : (skipGap d).consume? "\x7d" with
    | some f => exact concludes_pure ⟨hd.skipGap.trans (reaches_consume? hclose), trivial⟩
    | none =>
      refine (concludes_ofExcept (Q := fun r => o.cursor.Reaches r.2)
        fun r hr => hd.skipGap.trans (passes_objectKey hr).reaches).bind ?_
      rintro ⟨key, f⟩ hf
      dsimp only
      cases hcolon : (skipGap f).consume? ":" with
      | none => exact concludes_fail _
      | some f =>
        have keyed : o.cursor.Reaches f := hf.skipGap.trans (reaches_consume? hcolon)
        refine (hself.tried _ keyed.skipGap).bind ?_
        rintro ⟨value, g⟩ ⟨hg, placed⟩
        dsimp only
        cases hcomma : (skipGap g).consume? "," with
        | some g =>
          refine (ih (hg.skipGap.trans (reaches_consume? hcomma))).bind ?_
          rintro ⟨keys, values, f⟩ hmore
          exact concludes_pure ⟨hmore.1, placed, hmore.2⟩
        | none =>
          dsimp only
          cases hclose : (skipGap g).consume? "\x7d" with
          | some g =>
            exact concludes_pure ⟨hg.skipGap.trans (reaches_consume? hclose), placed, trivial⟩
          | none => exact concludes_fail _

theorem concludes_object (hself : PlacesIn o self) (fuel : Nat) {d : Cursor} (hd : o.cursor.Reaches d)
    (here : Position) :
    Concludes (OrMismatch o.Stops) (object self fuel d) fun r => o.cursor.Reaches r.2 ∧ r.1.Placed o here := by
  unfold object
  cases hopen : d.consume? "\x7b" with
  | none => exact concludes_fail _
  | some f =>
    refine (concludes_objectEntries hself fuel (hd.trans (reaches_consume? hopen))).bind ?_
    rintro ⟨keys, values, g⟩ hg
    exact concludes_pure hg

theorem concludes_arrayElements (hself : PlacesIn o self) (fuel : Nat) {d : Cursor} (hd : o.cursor.Reaches d) :
    Concludes (OrMismatch o.Stops) (arrayElements self fuel d)
      fun r => o.cursor.Reaches r.2 ∧ Expr.AllPlaced o r.1 := by
  induction fuel generalizing d with
  | zero => exact concludes_throw (.inr o.stops_exhausted)
  | succ fuel ih =>
    rw [arrayElements]
    cases hclose : (skipGap d).consume? "]" with
    | some f => exact concludes_pure ⟨hd.skipGap.trans (reaches_consume? hclose), trivial⟩
    | none =>
      refine (hself.tried _ hd.skipGap).bind ?_
      rintro ⟨e, f⟩ ⟨hf, placed⟩
      dsimp only
      cases hcomma : (skipGap f).consume? "," with
      | some f =>
        refine (ih (hf.skipGap.trans (reaches_consume? hcomma))).bind ?_
        rintro ⟨es, g⟩ hmore
        exact concludes_pure ⟨hmore.1, placed, hmore.2⟩
      | none =>
        dsimp only
        cases hclose : (skipGap f).consume? "]" with
        | some f =>
          exact concludes_pure ⟨hf.skipGap.trans (reaches_consume? hclose), placed, trivial⟩
        | none => exact concludes_fail _

theorem concludes_array (hself : PlacesIn o self) (fuel : Nat) {d : Cursor} (hd : o.cursor.Reaches d)
    (here : Position) :
    Concludes (OrMismatch o.Stops) (array self fuel d) fun r => o.cursor.Reaches r.2 ∧ r.1.Placed o here := by
  unfold array
  cases hopen : d.consume? "[" with
  | none => exact concludes_fail _
  | some f =>
    refine (concludes_arrayElements hself fuel (hd.trans (reaches_consume? hopen))).bind ?_
    rintro ⟨es, g⟩ hg
    exact concludes_pure hg

theorem concludes_accessors (hself : PlacesIn o self) (fuel : Nat) {d : Cursor} (hd : o.cursor.Reaches d) :
    Concludes o.Stops (accessors self fuel d) fun r => o.cursor.Reaches r.2 ∧ Accessor.AllPlaced o r.1 := by
  induction fuel generalizing d with
  | zero => exact concludes_throw o.stops_exhausted
  | succ fuel ih =>
    have nothing : Concludes o.Stops (pure ([], d))
        fun r : List Accessor × Cursor => o.cursor.Reaches r.2 ∧ Accessor.AllPlaced o r.1 :=
      concludes_pure ⟨hd, trivial⟩
    rw [accessors.eq_def]
    dsimp only
    split
    · split
      · exact nothing
      · next hname =>
        have named : o.cursor.Reaches _ := (hd.trans (reaches_next d)).trans (passes_identifier hname).reaches
        exact (ih named).bind fun more hmore => concludes_pure ⟨hmore.1, hmore.2⟩
    · have inside : o.cursor.Reaches (skipGap d.next) := (hd.trans (reaches_next d)).skipGap
      refine (hself.tried _ inside).attempt.bind fun r known => ?_
      cases r with
      | none => exact nothing
      | some r =>
        obtain ⟨hr, placed⟩ := known r rfl
        dsimp only
        cases hclose : (skipGap r.2).consume? "]" with
        | none => exact nothing
        | some f =>
          refine (ih (hr.skipGap.trans (reaches_consume? hclose))).bind ?_
          exact fun more hmore => concludes_pure ⟨hmore.1, placed, hmore.2⟩
    · exact nothing

theorem concludes_literalBase {d : Cursor} (hd : o.cursor.Reaches d) (here : Position) :
    Concludes (OrMismatch o.Stops) (literalBase d) fun r => o.cursor.Reaches r.2 ∧ r.1.Placed o here := by
  refine concludes_ofExcept (Q := fun r : Base × Cursor => o.cursor.Reaches r.2 ∧ r.1.Placed o here) fun r hr => ?_
  cases hl : literal d with
  | error e => rw [hl] at hr; cases hr
  | ok l =>
    rw [hl] at hr
    cases hr
    exact ⟨hd.trans (passes_literal hl).reaches, trivial⟩

theorem concludes_functionBase (term : Terminator) {d : Cursor} (hd : o.cursor.Reaches d) (here : Position) :
    Concludes (OrMismatch o.Stops) (functionBase term d) fun r => o.cursor.Reaches r.2 ∧ r.1.Placed o here := by
  refine concludes_ofExcept (Q := fun r : Base × Cursor => o.cursor.Reaches r.2 ∧ r.1.Placed o here) fun r hr => ?_
  cases hf : functionLiteral term d with
  | error e => rw [hf] at hr; cases hr
  | ok f =>
    rw [hf] at hr
    cases hr
    exact ⟨hd.trans (passes_functionLiteral hf).reaches, trivial⟩

theorem concludes_implicitBase (term : Terminator) {d : Cursor} (hd : o.cursor.Reaches d) (here : Position) :
    Concludes (OrMismatch o.Stops) (implicitBase term d) fun r => o.cursor.Reaches r.2 ∧ r.1.Placed o here := by
  refine concludes_ofExcept (Q := fun r : Base × Cursor => o.cursor.Reaches r.2 ∧ r.1.Placed o here) fun r hr => ?_
  obtain ⟨b, f⟩ := r
  obtain ⟨t, rfl⟩ := exists_of_implicitString hr
  exact ⟨hd.trans (passes_implicitString hr).reaches, trivial⟩

end Productions

/-! ## Expressions -/

section Expressions

variable {o : Origin} {n : Nat}

/-- What a call fails with, it fails with whatever budget it is read with. -/
theorem concludes_callAt (hself : PlacesIn o (expressionAt o.names n)) (strict : Bool) (term : Terminator)
    {d : Cursor} (hd : o.cursor.Reaches d) :
    Concludes (OrMismatch o.Stops) (call o.names (expressionAt o.names n) strict term d)
      fun r => o.cursor.Reaches r.2 ∧ r.1.Placed o d.pos := by
  have parts := @concludes_call o o.names _ hself strict term d hd
  refine ⟨parts.ok, fun run => (parts.error run).imp_right fun stops => ?_⟩
  obtain stops | ⟨name, arity, got, rfl⟩ := stops
  · exact stops
  · have given := (below_readCall o.names n strict term d).error run (by rintro ⟨⟩)
    have failed := (gives_readCall o.names strict term d).outcome_error given
    exact Origin.Halts.stops ⟨hd, rfl, .call failed rfl⟩

theorem concludes_base (hself : PlacesIn o (expressionAt o.names n)) (fuel : Nat) (term : Terminator) {d : Cursor}
    (hd : o.cursor.Reaches d) :
    Concludes (fun e => o.Stops e ∨ e = .mismatch (noMatch d "expected an expression"))
      (base o.names (expressionAt o.names n) fuel term d) fun r => o.cursor.Reaches r.2 ∧ r.1.Placed o d.pos := by
  have inside {p : Reading (Base × Cursor)}
      (h : Concludes (OrMismatch o.Stops) p fun r => o.cursor.Reaches r.2 ∧ r.1.Placed o d.pos) :=
    h.permit (F := OrMismatch fun e => o.Stops e ∨ e = .mismatch (noMatch d "expected an expression"))
      fun _ => Or.imp_right .inl
  refine concludes_firstOf (fun p hp => ?_) (.inr rfl)
  simp only [List.mem_cons, List.not_mem_nil, or_false] at hp
  rcases hp with rfl | rfl | rfl | rfl | rfl | rfl | rfl
  · exact inside (concludes_callAt hself true term hd)
  · exact inside (concludes_variableName hd)
  · exact inside (concludes_literalBase hd d.pos)
  · exact inside (concludes_object hself fuel hd d.pos)
  · exact inside (concludes_array hself fuel hd d.pos)
  · exact inside (concludes_functionBase term hd d.pos)
  · exact inside (concludes_implicitBase term hd d.pos)

/-- The atom that is read under a cursor has its place. -/
theorem concludes_atom (hself : PlacesIn o (expressionAt o.names n)) (term : Terminator) {d : Cursor}
    (hd : o.cursor.Reaches d) :
    Concludes (o.StopsAt term d) (atom o.names (expressionAt o.names n) n term d)
      fun r => o.cursor.Reaches r.2 ∧ r.1.Placed o := by
  have parts : Concludes (fun e => o.Stops e ∨ e = .mismatch (noMatch d "expected an expression"))
      (atom o.names (expressionAt o.names n) n term d) fun r => o.cursor.Reaches r.2 ∧
        ∃ b accs, r.1 = .atom b accs d.pos ∧ b.Placed o d.pos ∧ Accessor.AllPlaced o accs := by
    refine (concludes_base hself n term hd).bind ?_
    rintro ⟨b, f⟩ ⟨hf, placed⟩
    refine ((concludes_accessors hself n hf).permit fun _ => .inl).bind ?_
    rintro ⟨accs, g⟩ ⟨hg, haccs⟩
    exact concludes_pure ⟨hg, b, accs, rfl, placed, haccs⟩
  have gives := gives_readAtom o.names term d
  have below := below_readAtom o.names n term d
  constructor
  · rintro l ⟨e, f⟩ l' run
    obtain ⟨reached, b, accs, rfl, hb, haccs⟩ := parts.ok run
    exact ⟨reached, ⟨d, ⟨hd, .atom (gives.outcome_ok (below.ok run))⟩, rfl⟩, hb, haccs⟩
  · intro l e l' run
    refine (parts.error run).imp_right fun mismatch => ⟨mismatch, gives.outcome_error (below.error run ?_)⟩
    rw [mismatch]
    rintro ⟨⟩

theorem concludes_operand (hself : PlacesIn o (expressionAt o.names n)) (term : Terminator) {d : Cursor}
    (hd : o.cursor.Reaches d) :
    Concludes (o.StopsAt term d) (operand o.names (expressionAt o.names n) n term d)
      fun r => o.cursor.Reaches r.2.2 ∧ r.2.1.Placed o := by
  unfold operand
  cases hruns : unaryRuns d with
  | mk runs f =>
    cases runs with
    | nil => exact (concludes_atom hself term hd).bind fun _ hr => concludes_pure hr
    | cons run runs =>
      have start : o.cursor.Reaches f := hd.trans (reaches_unaryRuns hruns)
      have tried := (concludes_atom hself term start).permit fun _ => Origin.StopsAt.orMismatch
      refine (tried.attempt.permit fun _ => .inl).bind fun r known => ?_
      cases r with
      | none => exact (concludes_atom hself term hd).bind fun _ hr => concludes_pure hr
      | some r => exact concludes_pure (known r rfl)

theorem concludes_operations (hself : PlacesIn o (expressionAt o.names n)) (term : Terminator) (left : Nat)
    {f : Fold} (placed : f.Placed o) {d : Cursor} (hd : o.cursor.Reaches d) :
    Concludes o.Stops (operations o.names (expressionAt o.names n) n term left f d)
      fun r => o.cursor.Reaches r.2 ∧ r.1.Placed o := by
  induction left generalizing f d with
  | zero => exact concludes_throw o.stops_exhausted
  | succ left ih =>
    have nothing : Concludes o.Stops (pure (f, d)) fun r : Fold × Cursor => o.cursor.Reaches r.2 ∧ r.1.Placed o :=
      concludes_pure ⟨hd, placed⟩
    rw [operations]
    dsimp only [measureGap]
    split
    · exact nothing
    · cases hop : binaryOperator (skipGap d) with
      | error e => exact nothing
      | ok r =>
        obtain ⟨op, g⟩ := r
        have start : o.cursor.Reaches (skipGap g) := (hd.skipGap.trans (passes_binaryOperator hop).reaches).skipGap
        have tried := (concludes_operand hself term start).permit fun _ => Origin.StopsAt.orMismatch
        refine tried.attempt.bind fun r known => ?_
        cases r with
        | none => exact nothing
        | some r =>
          obtain ⟨hr, operand⟩ := known r rfl
          have settled : (f.pushBinary op (gap d.rest + gap g.rest)).Placed o :=
            Fold.forall_settle Fold.placed_unary Fold.placed_binary placed
          have pushed : (Fold.pushOperand (f.pushBinary op (gap d.rest + gap g.rest)) r.1 r.2.1).Placed o :=
            List.forall_mem_cons.2 ⟨operand, settled⟩
          exact ih pushed hr

theorem concludes_expressionWith (hself : PlacesIn o (expressionAt o.names n)) (term : Terminator) {d : Cursor}
    (hd : o.cursor.Reaches d) :
    Concludes (o.StopsAt term d) (expressionWith o.names (expressionAt o.names n) n term d)
      fun r => o.cursor.Reaches r.2 ∧ r.1.Placed o := by
  refine (concludes_operand hself term hd).bind ?_
  rintro ⟨runs, e, f⟩ ⟨hf, placed⟩
  have pushed : (Fold.pushOperand {} runs e).Placed o := List.forall_mem_singleton.2 placed
  refine ((concludes_operations hself term n pushed hf).permit fun _ => .inl).bind ?_
  rintro ⟨g, d⟩ ⟨reached, operands⟩
  refine concludes_pure ⟨reached, ?_⟩
  have finished := Fold.forall_finish Fold.placed_unary Fold.placed_binary operands
  cases hfinish : g.finish with
  | nil => exact placed
  | cons e' es => exact finished e' (by rw [hfinish]; exact List.mem_cons_self)

theorem placesIn_expressionAt (o : Origin) (n : Nat) : PlacesIn o (expressionAt o.names n) := by
  induction n with
  | zero => exact fun _ _ _ => concludes_throw (.inl o.stops_exhausted)
  | succ n ih => exact fun term d hd => concludes_expressionWith ih term hd

/-- An expression that is read in the text stands there. -/
theorem placesIn_expression (o : Origin) : PlacesIn o (expression o.names) := fun term d hd =>
  placesIn_expressionAt o _ term d hd

theorem concludes_expression (o : Origin) (term : Terminator) :
    Concludes o.Stops (expression o.names term o.cursor) fun r => o.cursor.Reaches r.2 ∧ r.1.Placed o :=
  (placesIn_expression o term o.cursor (.refl o.cursor)).permit fun _ stops => stops.stops (.refl o.cursor) rfl

theorem concludes_fullExpression (o : Origin) :
    Concludes o.Stops (fullExpression o.names o.cursor) fun e => e.Placed o := by
  have read := placesIn_expression o Terminator.never _ (reaches_skipGap o.cursor)
  constructor
  · intro l e l' run
    obtain ⟨⟨tree, f⟩, m, first, rest⟩ := ok_of_bind run
    dsimp only at rest
    split at rest
    · cases rest
      exact (read.ok first).2
    · cases rest
  · intro l e l' run
    unfold fullExpression at run
    cases first : expression o.names Terminator.never (skipGap o.cursor) l with
    | error e' m =>
      rw [bind_of_error first] at run
      cases run
      exact (read.error first).stops (reaches_skipGap o.cursor) (skipGap_skipGap o.cursor)
    | ok r m =>
      rw [bind_of_ok first] at run
      dsimp only at run
      split at run
      · cases run
      · next more =>
        cases run
        have whole := (gives_expression o.names Terminator.never (skipGap o.cursor)).outcome_ok first
        exact Origin.Halts.stops ⟨(read.ok first).1.skipGap, rfl, .rest whole rfl (Bool.not_eq_true _ ▸ more)⟩

theorem concludes_readCall (o : Origin) (strict : Bool) (term : Terminator) {d : Cursor}
    (hd : o.cursor.Reaches d) :
    Concludes (OrMismatch o.Stops) (readCall o.names strict term d)
      fun r => o.cursor.Reaches r.2 ∧ r.1.Placed o d.pos :=
  concludes_callAt (placesIn_expressionAt o d.rest.length) strict term hd

theorem concludes_readAccessors (o : Origin) {d : Cursor} (hd : o.cursor.Reaches d) :
    Concludes o.Stops (readAccessors o.names d) fun r => o.cursor.Reaches r.2 ∧ Accessor.AllPlaced o r.1 :=
  concludes_accessors (placesIn_expressionAt o _) _ hd

end Expressions

end Gapscript
