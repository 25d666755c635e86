import Gapscript.Proofs.Reading.Place
import Gapscript.Proofs.Reading.Statement

/-!
# Where the parts of statements stand

What a statement holds stands in the text that it was read from, atom by atom. Of a guard also the
text is kept, without the white space around it. Guards begin behind white space already, so as long as
the text has only white space of the language (`Text.Tidy`) nothing is trimmed in front, and the text
stands at the place that is kept with it (`includes_guardText`).
-/

namespace Gapscript

open Lexical Cursor Reading

/-! ## White space -/

/-- White space in the text is a space, a tab or an end of line. -/
def Text.Tidy (t : Text) : Prop := ∀ x ∈ t, isBlank x = true → isLineSpace x = true

instance (t : Text) : Decidable t.Tidy :=
  List.decidableBAll (fun x => Text.isBlank x = true → Text.isLineSpace x = true) t

theorem Text.Tidy.includes {c d : Cursor} (tidy : Tidy c.rest) (h : c.Includes d) : Tidy d.rest := by
  obtain ⟨p, q, hc, -⟩ := h
  intro x hx
  exact tidy x (by rw [hc]; simp [hx])

/-- The text of a guard stands where the guard begins. -/
theorem includes_guardText {c : Cursor} (d : Cursor) (tidy : Text.Tidy (skipGap c).rest) :
    (skipGap c).Includes ⟨Text.trim ((skipGap c).textUntil d), (skipGap c).pos⟩ := by
  have whole := textUntil_isPrefix (skipGap c) d
  have untrimmed : ((skipGap c).textUntil d).dropWhile Text.isBlank = (skipGap c).textUntil d := by
    cases text : (skipGap c).textUntil d with
    | nil => rfl
    | cons x u =>
      obtain ⟨later, split⟩ := whole
      rw [text, List.cons_append] at split
      have solid : ¬ Text.isBlank x = true := by
        intro blank
        have layout := isLayout_of_isLineSpace (tidy x (by rw [← split]; exact List.mem_cons_self) blank)
        have none := gap_skipGap c
        rw [← split] at none
        rw [isLayout_of_gap_eq_zero none] at layout
        cases layout
      rw [List.dropWhile_cons_of_neg solid]
  refine includes_of_isPrefix (List.IsPrefix.trans ?_ whole)
  rw [Text.trim, untrimmed]
  exact Text.dropEnd_isPrefix _ _

/-! ## Statements -/

/-- The guard and its text stand in the text that was read. -/
def Guard.Placed (o : Origin) (g : Guard) : Prop := g.tree.Placed o ∧ o.cursor.Includes ⟨g.text, g.pos⟩

/-- What the statement holds stands in the text that it was read from. -/
def Statement.Placed (o : Origin) : Statement → Prop
  | .declaration _ value _ => value.Placed o
  | .assignment a _ => Accessor.AllPlaced o a.accessors ∧ ∀ e, a.value = some e → e.Placed o
  | .conditional bs | .watch bs _ => ∀ b ∈ bs, ∀ g, b.guard = some g → g.Placed o
  | .giveBack value _ => ∀ e, value = some e → e.Placed o
  | .call value _ => ∃ b accs, value = .atom b accs o.cursor.pos ∧ b.Placed o o.cursor.pos ∧ Accessor.AllPlaced o accs
  | .expression value _ => value.Placed o
  | .block _ | .function _ => True

section Branches

variable {o : Origin} (word : String)

theorem concludes_guarded (tidy : Text.Tidy o.cursor.rest) {d : Cursor} (hd : o.cursor.Reaches d) :
    Concludes (OrMismatch o.Stops) (guarded o.names word d)
      fun r => o.cursor.Reaches r.2 ∧ ∀ g, r.1.guard = some g → g.Placed o := by
  unfold guarded
  cases hword : keyword? word d with
  | none => exact concludes_fail _
  | some f =>
    have start : o.cursor.Reaches (skipGap f) := (hd.trans (reaches_keyword? hword)).skipGap
    refine ((placesIn_expression o).tried _ start).bind ?_
    rintro ⟨tree, g⟩ ⟨hg, placed⟩
    refine (concludes_ofExcept (Q := fun r => (skipGap g).Reaches r.2)
      fun r hr => (passes_block hr).reaches).bind ?_
    rintro ⟨body, b⟩ hb
    refine concludes_pure ⟨hg.skipGap.trans hb, ?_⟩
    rintro _ ⟨⟩
    exact ⟨placed, start.includes.trans (includes_guardText g (tidy.includes start.includes))⟩

theorem concludes_elseBranches (tidy : Text.Tidy o.cursor.rest) (fuel : Nat) {d : Cursor} (hd : o.cursor.Reaches d) :
    Concludes o.Stops (elseBranches o.names word fuel d)
      fun r => o.cursor.Reaches r.2 ∧ ∀ b ∈ r.1, ∀ g, b.guard = some g → g.Placed o := by
  induction fuel generalizing d with
  | zero => exact concludes_throw o.stops_exhausted
  | succ fuel ih =>
    have nothing : Concludes o.Stops (pure ([], d)) fun r : List Branch × Cursor =>
        o.cursor.Reaches r.2 ∧ ∀ b ∈ r.1, ∀ g, b.guard = some g → g.Placed o :=
      concludes_pure ⟨hd, fun _ hb => nomatch hb⟩
    rw [elseBranches]
    cases helse : keyword? "else" (skipGap d) with
    | none => exact nothing
    | some f =>
      have start : o.cursor.Reaches (skipGap f) := (hd.skipGap.trans (reaches_keyword? helse)).skipGap
      refine (concludes_guarded word tidy start).attempt.bind fun r known => ?_
      cases r with
      | some r =>
        obtain ⟨hr, placed⟩ := known r rfl
        refine (ih hr).bind fun more hmore => ?_
        exact concludes_pure ⟨hmore.1, List.forall_mem_cons.2 ⟨placed, hmore.2⟩⟩
      | none =>
        dsimp only
        cases hblock : block (skipGap f) with
        | error e => exact nothing
        | ok r =>
          refine concludes_pure ⟨start.trans (passes_block hblock).reaches, fun b among g guarded => ?_⟩
          cases List.mem_singleton.1 among
          cases guarded

theorem concludes_branches (tidy : Text.Tidy o.cursor.rest) :
    Concludes (OrMismatch o.Stops) (branches o.names word o.cursor)
      fun r => ∀ b ∈ r.1, ∀ g, b.guard = some g → g.Placed o := by
  refine (concludes_guarded word tidy (.refl o.cursor)).bind ?_
  rintro ⟨b, d⟩ ⟨hd, placed⟩
  refine (concludes_elseBranches word tidy _ hd).orMismatch.bind ?_
  rintro ⟨bs, e⟩ ⟨-, others⟩
  exact concludes_pure (List.forall_mem_cons.2 ⟨placed, others⟩)

end Branches

/-! ## The forms -/

section Forms

variable (o : Origin) (closes : Bool)

theorem concludes_finish (ctx : StatementContext) (d : Cursor) :
    Concludes (OrMismatch o.Stops) (ctx.finish d) fun _ => True := by
  unfold StatementContext.finish
  dsimp only
  split
  · exact concludes_pure trivial
  · exact concludes_ofExcept fun _ _ => trivial

variable {o}

theorem concludes_value {f : Expr → Bool → Statement}
    (placed : ∀ e debug, e.Placed o → (f e debug).Placed o) {d : Cursor} (hd : o.cursor.Reaches d) :
    Concludes (OrMismatch o.Stops)
      (do
        let (value, e) ← expression o.names Terminator.never d
        let (debug, e) ← StatementContext.finish ⟨o.names, closes⟩ e
        pure (f value debug, e))
      fun r => r.1.Placed o := by
  refine ((placesIn_expression o).tried Terminator.never hd).bind ?_
  rintro ⟨value, e⟩ ⟨-, hvalue⟩
  exact (concludes_finish o _ e).bind fun r _ => concludes_pure (placed value r.1 hvalue)

variable (o)

theorem concludes_declarationForm :
    Concludes (OrMismatch o.Stops) (declarationForm ⟨o.names, closes⟩ o.cursor) fun r => r.1.Placed o := by
  refine (concludes_ofExcept (Q := fun r => o.cursor.Reaches r.2)
    fun r hr => (passes_declarationHeader hr).1.reaches).bind ?_
  rintro ⟨header, d⟩ hd
  exact concludes_value closes (f := .declaration header) (fun _ _ placed => placed) hd

theorem concludes_assignmentForm :
    Concludes (OrMismatch o.Stops) (assignmentForm ⟨o.names, closes⟩ o.cursor) fun r => r.1.Placed o := by
  refine (concludes_ofExcept (Q := fun r => o.cursor.Reaches r.2)
    fun r hr => (passes_bindingName hr).reaches).bind ?_
  rintro ⟨name, d⟩ hd
  refine (concludes_readAccessors o hd).orMismatch.bind ?_
  rintro ⟨accs, e⟩ ⟨he, haccs⟩
  refine (concludes_ofExcept (Q := fun r => o.cursor.Reaches r.2)
    fun r hr => he.skipGap.trans (passes_assignMode hr).reaches).bind ?_
  rintro ⟨mode, f⟩ hf
  cases mode with
  | step op => exact (concludes_finish o _ f).bind fun r _ => concludes_pure ⟨haccs, fun _ h => nomatch h⟩
  | plain | compound op =>
    refine concludes_value closes (f := fun value => .assignment ⟨name, accs, _, some value⟩)
      (fun e debug placed => ⟨haccs, ?_⟩) hf.skipGap
    rintro _ ⟨⟩
    exact placed

theorem concludes_functionForm :
    Concludes (OrMismatch o.Stops) (functionForm ⟨o.names, closes⟩ o.cursor) fun r => r.1.Placed o := by
  have read {α : Type} {r : Except ParseError α} :
      Concludes (OrMismatch o.Stops) (ofExcept r) fun _ => True :=
    concludes_ofExcept fun _ _ => trivial
  refine read.bind fun r _ => ?_
  dsimp only
  split
  · exact (concludes_fail (Q := fun _ => False) _).bind fun _ never => never.elim
  · split
    · exact concludes_fail _
    · refine read.bind fun _ _ => read.bind fun _ _ => ?_
      split
      · exact concludes_fail _
      · refine read.bind fun _ _ => ?_
        split
        · split
          · exact concludes_pure trivial
          · exact concludes_pure trivial
        · exact (concludes_finish o _ _).bind fun _ _ => concludes_pure trivial

theorem concludes_returnForm :
    Concludes (OrMismatch o.Stops) (returnForm ⟨o.names, closes⟩ o.cursor) fun r => r.1.Placed o := by
  unfold returnForm
  cases hword : keyword? "return" o.cursor with
  | none => exact concludes_fail _
  | some d =>
    dsimp only
    split
    · exact (concludes_finish o _ _).bind fun r _ => concludes_pure fun _ h => nomatch h
    · refine concludes_value closes (f := fun value => .giveBack (some value)) (fun e debug placed => ?_)
        (reaches_keyword? hword).skipGap
      rintro _ ⟨⟩
      exact placed

theorem concludes_callForm :
    Concludes (OrMismatch o.Stops) (callForm ⟨o.names, closes⟩ o.cursor) fun r => r.1.Placed o := by
  refine (concludes_readCall o false Terminator.never (.refl o.cursor)).bind ?_
  rintro ⟨b, d⟩ ⟨hd, placed⟩
  refine (concludes_readAccessors o hd).orMismatch.bind ?_
  rintro ⟨accs, e⟩ ⟨-, haccs⟩
  exact (concludes_finish o _ e).bind fun r _ => concludes_pure ⟨b, accs, rfl, placed, haccs⟩

variable {o closes}

theorem concludes_form (tidy : Text.Tidy o.cursor.rest) {form : Form} (h : form ∈ forms ⟨o.names, closes⟩) :
    Concludes (OrMismatch o.Stops) (form o.cursor) fun r => r.1.Placed o := by
  simp only [forms, List.mem_cons, List.not_mem_nil, or_false] at h
  rcases h with rfl | rfl | rfl | rfl | rfl | rfl | rfl | rfl | rfl
  · exact concludes_declarationForm o closes
  · exact concludes_assignmentForm o closes
  · exact (concludes_ofExcept (Q := fun _ => True) fun _ _ => trivial).bind fun _ _ => concludes_pure trivial
  · exact (concludes_branches "if" tidy).bind fun _ placed => concludes_pure placed
  · exact (concludes_branches "when" tidy).withNotes.bind fun _ placed => concludes_pure placed
  · exact concludes_functionForm o closes
  · exact concludes_returnForm o closes
  · exact concludes_callForm o closes
  · exact concludes_value closes (f := .expression) (fun _ _ placed => placed) (.refl o.cursor)

end Forms

theorem Error.pos?_settled (e : Error) : e.settled.pos? = e.pos? := by cases e <;> rfl

/-- The statement under a cursor stands in the text there. If there is none, the reading stops in this text,
and its failure is settled. -/
theorem statement_placed {o : Origin} {closes : Bool} (tidy : Text.Tidy o.cursor.rest) :
    (∀ {stmt d}, statement ⟨o.names, closes⟩ o.cursor = .ok (stmt, d) → stmt.Placed o) ∧
      ∀ {e}, statement ⟨o.names, closes⟩ o.cursor = .error e → ∃ e', e = e'.settled ∧ o.Stops e' := by
  let nothing : ParseError := ⟨.unexpectedToken, "no statement matches", some o.cursor.pos⟩
  let first := firstOf nothing ((forms ⟨o.names, closes⟩).map fun form => form o.cursor)
  have ends : Concludes (fun e => o.Stops e ∨ e = .mismatch nothing) first fun r => r.1.Placed o := by
    refine concludes_firstOf (fun p hp => ?_) (.inr rfl)
    obtain ⟨form, known, rfl⟩ := List.mem_map.1 hp
    exact (concludes_form tidy known).permit fun e => Or.imp_right .inl
  constructor
  · intro stmt d h
    unfold statement Reading.outcome at h
    dsimp only at h
    split at h
    · next hr =>
      cases h
      split at hr
      · next run =>
        cases hr
        exact ends.ok run
      · cases hr
    · cases h
  · intro e h
    have failed := h
    unfold statement Reading.outcome at h
    dsimp only at h
    split at h
    · cases h
    · next hr =>
      cases h
      split at hr
      · cases hr
      · next run =>
        cases hr
        refine ⟨_, rfl, ?_⟩
        obtain stops | rfl := ends.error run
        · exact stops
        · exact Origin.Halts.stops ⟨.refl o.cursor, rfl, .statement rfl failed⟩

/-! ## Guards -/

/-- One of the guards is not read, and its reading stops in its text. -/
def GuardStops (names : Names) (bs : List Branch) (e : Error) : Prop :=
  ∃ b ∈ bs, ∃ g, b.guard = some g ∧ (fullExpression names ⟨g.text, g.pos⟩).outcome = .error e ∧
    Origin.Stops ⟨names, ⟨g.text, g.pos⟩⟩ e

/-- Guards that are read anew stand in their texts. -/
theorem concludes_readGuards (names : Names) {P : Cursor → Prop} {bs : List Branch}
    (texts : ∀ b ∈ bs, ∀ g, b.guard = some g → P ⟨g.text, g.pos⟩) :
    Concludes (GuardStops names bs) (readGuards names bs)
      fun r => ∀ b ∈ r, ∀ g, b.guard = some g → P ⟨g.text, g.pos⟩ ∧ g.tree.Placed ⟨names, ⟨g.text, g.pos⟩⟩ := by
  induction bs with
  | nil => exact concludes_pure fun _ hb => nomatch hb
  | cons b bs ih =>
    obtain ⟨here, later⟩ := List.forall_mem_cons.1 texts
    have rest := (ih later).permit (F := GuardStops names (b :: bs))
      fun e ⟨b', among, found⟩ => ⟨b', List.mem_cons_of_mem b among, found⟩
    rw [readGuards]
    cases hg : b.guard with
    | none =>
      refine rest.bind fun rest hrest => concludes_pure (List.forall_mem_cons.2 ⟨?_, hrest⟩)
      intro g known
      rw [hg] at known
      cases known
    | some g =>
      have read := concludes_fullExpression ⟨names, ⟨g.text, g.pos⟩⟩
      have outcome := gives_fullExpression names ⟨g.text, g.pos⟩
      refine Concludes.bind (P := fun e => e.Placed ⟨names, ⟨g.text, g.pos⟩⟩) ⟨read.ok, fun run => ?_⟩
        fun tree placed => ?_
      · exact ⟨b, List.mem_cons_self, g, hg, outcome.outcome_error run, read.error run⟩
      · refine rest.bind fun rest hrest => concludes_pure (List.forall_mem_cons.2 ⟨?_, hrest⟩)
        rintro _ ⟨⟩
        exact ⟨here g hg, placed⟩

end Gapscript
