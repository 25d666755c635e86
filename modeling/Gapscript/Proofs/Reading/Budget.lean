import Gapscript.Proofs.Reading.Expression

/-!
# Budgets of readers

A reader that is given a larger budget reads the same, unless the smaller one ran out (`below_expressionAt`).
So two readings of one text with budgets of their own end alike if neither ran out
(`operand_ends_alike`, `accessors_end_alike`), and an atom that is read with some budget is
read as it is with the budget that its text needs (`below_readAtom`).
-/

namespace Gapscript

open Lexical Cursor Reading

/-! ## Readings that may run out -/

namespace Reading

variable {α β : Type}

/-- The first reading runs out of its budget, or it is the second one. -/
def Below (p q : Reading α) : Prop := ∀ l, (∃ l', p l = .error .exhausted l') ∨ p l = q l

variable {p q : Reading α} {f g : α → Reading β} {a b : α} {l l' m m' : List String}

theorem Below.refl (p : Reading α) : Below p p := fun _ => .inr rfl

theorem below_exhausted (q : Reading α) : Below (throw .exhausted) q := fun l => .inl ⟨l, rfl⟩

theorem Below.ok (h : Below p q) (run : p l = .ok a l') : q l = .ok a l' := by
  rcases h l with ⟨_, ran⟩ | same
  · rw [run] at ran
    cases ran
  · exact same.symm.trans run

theorem Below.error (h : Below p q) {e : Error} (run : p l = .error e l') (left : e ≠ .exhausted) :
    q l = .error e l' := by
  rcases h l with ⟨_, ran⟩ | same
  · rw [run] at ran
    cases ran
    exact absurd rfl left
  · exact same.symm.trans run

theorem Below.mismatch (h : Below p q) {e : ParseError} (run : p l = .error (.mismatch e) l') :
    q l = .error (.mismatch e) l' := h.error run nofun

theorem Below.bind (h : Below p q) (k : ∀ a, Below (f a) (g a)) : Below (p >>= f) (q >>= g) := by
  intro l
  rcases h l with ⟨l', ran⟩ | same
  · exact .inl ⟨l', bind_of_error ran⟩
  · cases run : p l with
    | error e l' => exact .inr ((bind_of_error run).trans (bind_of_error (same.symm.trans run)).symm)
    | ok a l' =>
      rw [bind_of_ok run, bind_of_ok (same.symm.trans run)]
      exact k a l'

theorem Below.attempt (h : Below p q) : Below p.attempt q.attempt := by
  intro l
  rcases h l with ⟨l', ran⟩ | same
  · refine .inl ⟨l', ?_⟩
    rw [Reading.attempt, ran]
    rfl
  · exact .inr (by rw [Reading.attempt, Reading.attempt, same])

theorem Below.orElse {ps qs : List (Reading α)} {otherwise : ParseError} (h : Below p q)
    (rest : Below (firstOf otherwise ps) (firstOf otherwise qs)) :
    Below (firstOf otherwise (p :: ps)) (firstOf otherwise (q :: qs)) := by
  refine h.attempt.bind fun r => ?_
  cases r with
  | some a => exact .refl _
  | none => exact rest

theorem below_ite {c : Prop} [Decidable c] {p' q' : Reading α} (yes : Below p q) (no : Below p' q') :
    Below (if c then p else p') (if c then q else q') := by
  split
  · exact yes
  · exact no

/-- A reading that does not run out is the one with the larger budget. -/
theorem Below.ends (h : Below p q) {P : α → Prop} (gives : p.Gives P) : p = q := by
  funext l
  rcases h l with ⟨l', ran⟩ | same
  · cases gives with
    | ok a _ run =>
      obtain ⟨_, -, run⟩ := run l
      rw [run] at ran
      cases ran
    | error e reported run =>
      obtain ⟨_, -, run⟩ := run l
      rw [run] at ran
      cases ran
      cases reported
  · exact same

theorem Gives.ok_ok {P : α → Prop} (gives : p.Gives P) (run : p l = .ok a l') (run' : p m = .ok b m') :
    a = b := by
  cases gives with
  | ok c _ all =>
    obtain ⟨_, -, same⟩ := all l
    obtain ⟨_, -, same'⟩ := all m
    rw [run] at same
    rw [run'] at same'
    cases same
    cases same'
    rfl
  | error e _ all =>
    obtain ⟨_, -, same⟩ := all l
    rw [run] at same
    cases same

theorem Gives.ok_error {P : α → Prop} (gives : p.Gives P) {e : Error} (run : p l = .ok a l')
    (run' : p m = .error e m') : False := by
  cases gives with
  | ok c _ all =>
    obtain ⟨_, -, same⟩ := all m
    rw [run'] at same
    cases same
  | error e _ all =>
    obtain ⟨_, -, same⟩ := all l
    rw [run] at same
    cases same

end Reading

/-! ## Productions -/

section Productions

variable {names : Names} {self self' : ExprReader}

/-- Every reading of one reader is below that of the other. -/
def ReadsLess (self self' : ExprReader) : Prop := ∀ term c, Below (self term c) (self' term c)

theorem below_arguments (hself : ReadsLess self self') (tooFew : Nat → Error) (term : Terminator)
    (read left : Nat) (c : Cursor) :
    Below (arguments self tooFew term read left c) (arguments self' tooFew term read left c) := by
  induction left generalizing read c with
  | zero => exact .refl _
  | succ left ih =>
    rw [arguments, arguments]
    refine below_ite (.refl _) ?_
    refine Below.bind (hself _ _).attempt fun r => ?_
    cases r with
    | none => exact .refl _
    | some r =>
      refine below_ite (.refl _) ?_
      split
      · exact .refl _
      · exact (ih _ _).bind fun _ => .refl _

theorem below_call (hself : ReadsLess self self') (strict : Bool) (term : Terminator) (c : Cursor) :
    Below (call names self strict term c) (call names self' strict term c) := by
  refine Below.bind (.refl _) fun r => ?_
  dsimp only
  split
  · exact .refl _
  · exact (below_arguments hself _ _ _ _ _).bind fun _ => .refl _

theorem below_objectEntries (hself : ReadsLess self self') {fuel fuel' : Nat} (more : fuel ≤ fuel')
    (c : Cursor) : Below (objectEntries self fuel c) (objectEntries self' fuel' c) := by
  induction fuel generalizing fuel' c with
  | zero => exact below_exhausted _
  | succ fuel ih =>
    obtain ⟨fuel', rfl⟩ : ∃ k, fuel' = k + 1 := ⟨fuel' - 1, by omega⟩
    rw [objectEntries, objectEntries]
    dsimp only
    split
    · exact .refl _
    · refine Below.bind (.refl _) fun r => ?_
      split
      · exact .refl _
      · refine (hself _ _).bind fun r => ?_
        split
        · exact (ih (by omega) _).bind fun _ => .refl _
        · exact .refl _

theorem below_object (hself : ReadsLess self self') {fuel fuel' : Nat} (more : fuel ≤ fuel') (c : Cursor) :
    Below (object self fuel c) (object self' fuel' c) := by
  unfold object
  split
  · exact .refl _
  · exact (below_objectEntries hself more _).bind fun _ => .refl _

theorem below_arrayElements (hself : ReadsLess self self') {fuel fuel' : Nat} (more : fuel ≤ fuel')
    (c : Cursor) : Below (arrayElements self fuel c) (arrayElements self' fuel' c) := by
  induction fuel generalizing fuel' c with
  | zero => exact below_exhausted _
  | succ fuel ih =>
    obtain ⟨fuel', rfl⟩ : ∃ k, fuel' = k + 1 := ⟨fuel' - 1, by omega⟩
    rw [arrayElements, arrayElements]
    dsimp only
    split
    · exact .refl _
    · refine (hself _ _).bind fun r => ?_
      split
      · exact (ih (by omega) _).bind fun _ => .refl _
      · exact .refl _

theorem below_array (hself : ReadsLess self self') {fuel fuel' : Nat} (more : fuel ≤ fuel') (c : Cursor) :
    Below (array self fuel c) (array self' fuel' c) := by
  unfold array
  split
  · exact .refl _
  · exact (below_arrayElements hself more _).bind fun _ => .refl _

theorem below_accessors (hself : ReadsLess self self') {fuel fuel' : Nat} (more : fuel ≤ fuel') (c : Cursor) :
    Below (accessors self fuel c) (accessors self' fuel' c) := by
  induction fuel generalizing fuel' c with
  | zero => exact below_exhausted _
  | succ fuel ih =>
    obtain ⟨fuel', rfl⟩ : ∃ k, fuel' = k + 1 := ⟨fuel' - 1, by omega⟩
    rw [accessors.eq_def, accessors.eq_def]
    dsimp only
    split
    · split
      · exact .refl _
      · exact (ih (by omega) _).bind fun _ => .refl _
    · refine Below.bind (hself _ _).attempt fun r => ?_
      cases r with
      | none => exact .refl _
      | some r =>
        dsimp only
        split
        · exact .refl _
        · exact (ih (by omega) _).bind fun _ => .refl _
    · exact .refl _

theorem below_base (hself : ReadsLess self self') {fuel fuel' : Nat} (more : fuel ≤ fuel')
    (term : Terminator) (c : Cursor) :
    Below (base names self fuel term c) (base names self' fuel' term c) := by
  refine (below_call hself true term c).orElse ?_
  refine (Below.refl _).orElse ?_
  refine (Below.refl _).orElse ?_
  refine (below_object hself more c).orElse ?_
  refine (below_array hself more c).orElse ?_
  exact .refl _

theorem below_atom (hself : ReadsLess self self') {fuel fuel' : Nat} (more : fuel ≤ fuel')
    (term : Terminator) (c : Cursor) :
    Below (atom names self fuel term c) (atom names self' fuel' term c) := by
  refine (below_base hself more term c).bind fun r => ?_
  exact (below_accessors hself more _).bind fun _ => .refl _

theorem below_operand (hself : ReadsLess self self') {fuel fuel' : Nat} (more : fuel ≤ fuel')
    (term : Terminator) (c : Cursor) :
    Below (operand names self fuel term c) (operand names self' fuel' term c) := by
  unfold operand
  split
  · exact (below_atom hself more term c).bind fun _ => .refl _
  · refine Below.bind (below_atom hself more term _).attempt fun r => ?_
    cases r with
    | none => exact (below_atom hself more term c).bind fun _ => .refl _
    | some r => exact .refl _

theorem below_operations (hself : ReadsLess self self') {fuel fuel' : Nat} (more : fuel ≤ fuel')
    (term : Terminator) {left left' : Nat} (longer : left ≤ left') (f : Fold) (c : Cursor) :
    Below (operations names self fuel term left f c) (operations names self' fuel' term left' f c) := by
  induction left generalizing left' f c with
  | zero => exact below_exhausted _
  | succ left ih =>
    obtain ⟨left', rfl⟩ : ∃ k, left' = k + 1 := ⟨left' - 1, by omega⟩
    rw [operations, operations]
    dsimp only [measureGap]
    refine below_ite (.refl _) ?_
    split
    · exact .refl _
    · refine Below.bind (below_operand hself more term _).attempt fun r => ?_
      cases r with
      | none => exact .refl _
      | some r => exact ih (by omega) _ _

end Productions

/-! ## Expressions -/

section Expressions

variable {names : Names} {n m : Nat}

theorem below_expressionAt (names : Names) (more : n ≤ m) :
    ReadsLess (expressionAt names n) (expressionAt names m) := by
  induction n generalizing m with
  | zero => exact fun _ _ => below_exhausted _
  | succ n ih =>
    obtain ⟨m, rfl⟩ : ∃ k, m = k + 1 := ⟨m - 1, by omega⟩
    have fewer : n ≤ m := by omega
    intro term c
    refine (below_operand (ih fewer) fewer term c).bind fun r => ?_
    exact (below_operations (ih fewer) fewer term fewer _ _).bind fun _ => .refl _

/-- With more than the budget that a text needs, the expression is read off it. -/
theorem expressionAt_eq {c : Cursor} (enough : c.rest.length < n) (term : Terminator) :
    expressionAt names n term c = expression names term c :=
  ((below_expressionAt names enough term c).ends (gives_expression names term c)).symm

theorem gives_readAtom (names : Names) (term : Terminator) (c : Cursor) :
    (readAtom names term c).Gives fun _ => True :=
  (twins_atom names.accord_any (twins_expressionAt names.accord_any c.rest.length) term
    (Source.covers_any c) (Nat.le_refl _) (Nat.le_refl _)).gives.mono fun _ _ => trivial

theorem gives_readCall (names : Names) (strict : Bool) (term : Terminator) (c : Cursor) :
    (readCall names strict term c).Gives fun _ => True :=
  (twins_call names.accord_any (twins_expressionAt names.accord_any c.rest.length) strict term
    (Source.covers_any c) (Nat.le_refl _)).gives.mono fun _ _ => trivial

/-- Whatever budget it is read with, an atom is read as it is with the budget that its text needs, unless the
budget runs out. -/
theorem below_readAtom (names : Names) (n : Nat) (term : Terminator) (c : Cursor) :
    Below (atom names (expressionAt names n) n term c) (readAtom names term c) := by
  obtain ⟨N, hn, hc⟩ : ∃ N, n ≤ N ∧ c.rest.length ≤ N := ⟨n + c.rest.length, by omega, by omega⟩
  have longer : Below (readAtom names term c) _ := below_atom (below_expressionAt names hc) hc term c
  rw [longer.ends (gives_readAtom names term c)]
  exact below_atom (below_expressionAt names hn) hn term c

theorem below_readCall (names : Names) (n : Nat) (strict : Bool) (term : Terminator) (c : Cursor) :
    Below (call names (expressionAt names n) strict term c) (readCall names strict term c) := by
  obtain ⟨N, hn, hc⟩ : ∃ N, n ≤ N ∧ c.rest.length ≤ N := ⟨n + c.rest.length, by omega, by omega⟩
  have longer : Below (readCall names strict term c) _ := below_call (below_expressionAt names hc) strict term c
  rw [longer.ends (gives_readCall names strict term c)]
  exact below_call (below_expressionAt names hn) strict term c

/-- Two readings of an operand with budgets of their own are not a success and a mismatch. -/
theorem operand_ends_alike {c : Cursor} {term : Terminator} {r : List UnaryRun × Expr × Cursor}
    {e : ParseError} {l l' k k' : List String}
    (run : operand names (expressionAt names n) n term c l = .ok r l')
    (run' : operand names (expressionAt names m) m term c k = .error (.mismatch e) k') : False := by
  obtain ⟨N, hn, hm, hc⟩ : ∃ N, n ≤ N ∧ m ≤ N ∧ c.rest.length ≤ N :=
    ⟨n + m + c.rest.length, by omega, by omega, by omega⟩
  have gives := (twins_operand names.accord_any (twins_expressionAt names.accord_any N) term
    (Source.covers_any c) hc hc).gives
  have longer : operand names (expressionAt names N) N term c l = .ok r l' :=
    (below_operand (below_expressionAt names hn) hn term c).ok run
  have longer' : operand names (expressionAt names N) N term c k = .error (.mismatch e) k' :=
    (below_operand (below_expressionAt names hm) hm term c).mismatch run'
  exact gives.ok_error longer longer'

/-- Two readings of accessors with budgets of their own end alike. -/
theorem accessors_end_alike {c : Cursor} {r r' : List Accessor × Cursor} {j j' : Nat} {l l' k k' : List String}
    (run : accessors (expressionAt names n) j c l = .ok r l')
    (run' : accessors (expressionAt names m) j' c k = .ok r' k') : r = r' := by
  obtain ⟨N, hn, hm, hc⟩ : ∃ N, n ≤ N ∧ m ≤ N ∧ c.rest.length ≤ N :=
    ⟨n + m + c.rest.length, by omega, by omega, by omega⟩
  obtain ⟨J, hj, hj', hJ⟩ : ∃ J, j ≤ J ∧ j' ≤ J ∧ c.rest.length < J :=
    ⟨j + j' + c.rest.length + 1, by omega, by omega, by omega⟩
  have gives := (twins_accessors (twins_expressionAt names.accord_any N) (Source.covers_any c) hc hJ).gives
  have longer := (below_accessors (below_expressionAt names hn) hj c).ok run
  have longer' := (below_accessors (below_expressionAt names hm) hj' c).ok run'
  exact gives.ok_ok longer longer'

end Expressions

end Gapscript
