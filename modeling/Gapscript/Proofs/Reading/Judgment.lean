import Gapscript.Expr.Reading

/-!
# How readings end

`p.Gives Q` is the judgment that every reader of the language is shown to satisfy: the reading ends
the same way whatever was noted before it, it only adds to the notes, and it ends with something
that `Q` holds of or with a failure that readings report. A budget that runs out is not among those
failures. `Twins W p q Q` says it of two readings that are the same, and that they note only names
that `W` holds of. The rules below follow the combinators that readers are built from.
-/

namespace Gapscript.Reading

variable {α β : Type}

/-- A failure that readings report: a mismatch, or a call with too few arguments. -/
inductive Reported : Error → Prop
  | mismatch (e : ParseError) : Reported (.mismatch e)
  | tooFew (name : String) (expected got : Int) (pos : Position) :
    Reported (.runtime ⟨.argumentCount name expected got, some pos⟩)

/-- Notes with further names at the end, each name once. -/
def Grows (l l' : List String) : Prop := l <+: l' ∧ (l.Nodup → l'.Nodup)

/-- The reading ends the same way after any notes, and as `Q` and `Reported` say. -/
inductive Gives (p : Reading α) (Q : α → Prop) : Prop
  | ok (a : α) (holds : Q a) (run : ∀ l, ∃ l', Grows l l' ∧ p l = .ok a l')
  | error (e : Error) (reported : Reported e) (run : ∀ l, ∃ l', Grows l l' ∧ p l = .error e l')

theorem Grows.refl (l : List String) : Grows l l := ⟨List.prefix_rfl, id⟩

theorem Grows.trans {l m n : List String} (h : Grows l m) (k : Grows m n) : Grows l n :=
  ⟨h.1.trans k.1, fun hl => k.2 (h.2 hl)⟩

theorem grows_noted (l : List String) (name : String) : Grows l (noted l name) := by
  refine ⟨?_, nodup_noted⟩
  unfold noted
  split
  · exact List.prefix_rfl
  · exact List.prefix_append l [name]

theorem bind_of_ok {p : Reading α} {f : α → Reading β} {l l' : List String} {a : α}
    (h : p l = .ok a l') : (p >>= f) l = f a l' := by
  change EStateM.bind p f l = _
  rw [EStateM.bind, h]

theorem bind_of_error {p : Reading α} {f : α → Reading β} {l l' : List String} {e : Error}
    (h : p l = .error e l') : (p >>= f) l = .error e l' := by
  change EStateM.bind p f l = _
  rw [EStateM.bind, h]

theorem ok_of_bind {p : Reading α} {f : α → Reading β} {l l' : List String} {b : β}
    (run : (p >>= f) l = .ok b l') : ∃ a m, p l = .ok a m ∧ f a m = .ok b l' := by
  cases first : p l with
  | ok a m => exact ⟨a, m, rfl, (bind_of_ok first).symm.trans run⟩
  | error e m =>
    rw [bind_of_error first] at run
    cases run

theorem attempt_of_ok {p : Reading α} {l l' : List String} {a : α} (h : p l = .ok a l') :
    p.attempt l = .ok (some a) l' := by
  rw [attempt, h]

theorem attempt_of_mismatch {p : Reading α} {l l' : List String} {e : ParseError}
    (h : p l = .error (.mismatch e) l') : p.attempt l = .ok none l' := by
  rw [attempt, h]
  rfl

theorem firstOf_of_ok {otherwise : ParseError} {p : Reading α} {ps : List (Reading α)}
    {l l' : List String} {a : α} (h : p l = .ok a l') : firstOf otherwise (p :: ps) l = .ok a l' :=
  bind_of_ok (attempt_of_ok h)

theorem firstOf_of_mismatch {otherwise : ParseError} {p : Reading α} {ps : List (Reading α)}
    {l l' : List String} {e : ParseError} (h : p l = .error (.mismatch e) l') :
    firstOf otherwise (p :: ps) l = firstOf otherwise ps l' :=
  bind_of_ok (attempt_of_mismatch h)

/-! ## Rules -/

theorem gives_pure {Q : α → Prop} {a : α} (h : Q a) : Gives (pure a) Q :=
  .ok a h fun l => ⟨l, Grows.refl l, rfl⟩

theorem gives_throw {Q : α → Prop} {e : Error} (h : Reported e) : Gives (throw e) Q :=
  .error e h fun l => ⟨l, Grows.refl l, rfl⟩

theorem gives_fail {Q : α → Prop} (e : ParseError) : Gives (fail e) Q := gives_throw (.mismatch e)

theorem gives_note (name : String) : Gives (note name) fun _ => True :=
  .ok () trivial fun l => ⟨noted l name, grows_noted l name, rfl⟩

theorem Gives.mono {p : Reading α} {P Q : α → Prop} (hp : p.Gives P) (h : ∀ a, P a → Q a) :
    p.Gives Q := by
  cases hp with
  | ok a holds run => exact .ok a (h a holds) run
  | error e reported run => exact .error e reported run

theorem Gives.bind {p : Reading α} {f : α → Reading β} {P : α → Prop} {Q : β → Prop}
    (hp : p.Gives P) (hf : ∀ a, P a → (f a).Gives Q) : (p >>= f).Gives Q := by
  cases hp with
  | error e reported run =>
    refine .error e reported fun l => ?_
    obtain ⟨l', hl, hrun⟩ := run l
    exact ⟨l', hl, bind_of_error hrun⟩
  | ok a holds run =>
    cases hf a holds with
    | ok b hb runb =>
      refine .ok b hb fun l => ?_
      obtain ⟨l', hl, hrun⟩ := run l
      obtain ⟨l'', hl', hrun'⟩ := runb l'
      exact ⟨l'', hl.trans hl', (bind_of_ok hrun).trans hrun'⟩
    | error e reported rune =>
      refine .error e reported fun l => ?_
      obtain ⟨l', hl, hrun⟩ := run l
      obtain ⟨l'', hl', hrun'⟩ := rune l'
      exact ⟨l'', hl.trans hl', (bind_of_ok hrun).trans hrun'⟩

/-- A reading that is tried gives what it gives, or nothing. -/
theorem Gives.attempt {p : Reading α} {P : α → Prop} (hp : p.Gives P) :
    p.attempt.Gives fun r => ∀ a, r = some a → P a := by
  cases hp with
  | ok a holds run =>
    refine .ok (some a) (fun b hb => Option.some.inj hb ▸ holds) fun l => ?_
    obtain ⟨l', hl, hrun⟩ := run l
    exact ⟨l', hl, by rw [Reading.attempt, hrun]⟩
  | error e reported run =>
    cases reported with
    | mismatch e =>
      refine .ok none (fun _ h => nomatch h) fun l => ?_
      obtain ⟨l', hl, hrun⟩ := run l
      exact ⟨l', hl, by rw [Reading.attempt, hrun]; rfl⟩
    | tooFew name expected got pos =>
      refine .error _ (.tooFew name expected got pos) fun l => ?_
      obtain ⟨l', hl, hrun⟩ := run l
      exact ⟨l', hl, by rw [Reading.attempt, hrun]; rfl⟩

theorem gives_firstOf {Q : α → Prop} {otherwise : ParseError} {ps : List (Reading α)}
    (h : ∀ p ∈ ps, p.Gives Q) : (firstOf otherwise ps).Gives Q := by
  induction ps with
  | nil => exact gives_fail otherwise
  | cons p ps ih =>
    refine (h p List.mem_cons_self).attempt.bind fun r hr => ?_
    cases r with
    | some a => exact gives_pure (hr a rfl)
    | none => exact ih fun q hq => h q (List.mem_cons_of_mem _ hq)

/-! ## Outcomes -/

theorem Gives.of_outcome_ok {p : Reading α} {Q : α → Prop} (hp : p.Gives Q) {a : α}
    (h : p.outcome = .ok a) : Q a := by
  cases hp with
  | ok b holds run =>
    obtain ⟨l', -, hrun⟩ := run []
    rw [outcome, hrun] at h
    cases h
    exact holds
  | error e reported run =>
    obtain ⟨l', -, hrun⟩ := run []
    rw [outcome, hrun] at h
    cases h

theorem Gives.of_outcome_error {p : Reading α} {Q : α → Prop} (hp : p.Gives Q) {e : Error}
    (h : p.outcome = .error e) : Reported e := by
  cases hp with
  | ok b holds run =>
    obtain ⟨l', -, hrun⟩ := run []
    rw [outcome, hrun] at h
    cases h
  | error e' reported run =>
    obtain ⟨l', -, hrun⟩ := run []
    rw [outcome, hrun] at h
    cases h
    exact reported

theorem Gives.outcome_ok {p : Reading α} {Q : α → Prop} (hp : p.Gives Q) {l l' : List String} {a : α}
    (h : p l = .ok a l') : p.outcome = .ok a := by
  cases hp with
  | ok b holds run =>
    obtain ⟨m, -, first⟩ := run []
    obtain ⟨m', -, other⟩ := run l
    rw [h] at other
    cases other
    rw [outcome, first]
  | error e reported run =>
    obtain ⟨m, -, hrun⟩ := run l
    rw [hrun] at h
    cases h

theorem Gives.outcome_error {p : Reading α} {Q : α → Prop} (hp : p.Gives Q) {l l' : List String} {e : Error}
    (h : p l = .error e l') : p.outcome = .error e := by
  cases hp with
  | ok b holds run =>
    obtain ⟨m, -, hrun⟩ := run l
    rw [hrun] at h
    cases h
  | error e' reported run =>
    obtain ⟨m, -, first⟩ := run []
    obtain ⟨m', -, other⟩ := run l
    rw [h] at other
    cases other
    rw [outcome, first]

/-! ## Twins -/

theorem Gives.of_run_ok {p : Reading α} {Q : α → Prop} (hp : p.Gives Q) {l l' : List String} {a : α}
    (h : p l = .ok a l') : Q a := by
  cases hp with
  | ok b holds run =>
    obtain ⟨m, -, hrun⟩ := run l
    rw [hrun] at h
    cases h
    exact holds
  | error e reported run =>
    obtain ⟨m, -, hrun⟩ := run l
    rw [hrun] at h
    cases h

/-- The notes that a reading ended with. -/
def notesOf : EStateM.Result Error (List String) α → List String
  | .ok _ l => l
  | .error _ l => l

/-- Two readings are the same, give what `Q` says and note only names that `W` holds of. -/
structure Twins (W : String → Prop) (p q : Reading α) (Q : α → Prop) : Prop where
  same : p = q
  gives : p.Gives Q
  notes : ∀ l, ∀ name ∈ notesOf (p l), name ∈ l ∨ W name

section TwinRules

variable {W : String → Prop} {P Q : α → Prop}

theorem twins_pure {a : α} (h : Q a) : Twins W (pure a) (pure a) Q :=
  ⟨rfl, gives_pure h, fun _ _ hn => .inl hn⟩

theorem twins_throw {e : Error} (h : Reported e) : Twins W (throw e) (throw e) Q :=
  ⟨rfl, gives_throw h, fun _ _ hn => .inl hn⟩

theorem twins_fail (e : ParseError) : Twins W (fail e) (fail e) Q := twins_throw (.mismatch e)

theorem twins_note {name : String} (h : W name) : Twins W (note name) (note name) fun _ => True := by
  refine ⟨rfl, gives_note name, fun l x (hx : x ∈ noted l name) => ?_⟩
  unfold noted at hx
  split at hx
  · exact .inl hx
  · rcases List.mem_append.1 hx with hx | hx
    · exact .inl hx
    · rw [List.mem_singleton.1 hx]
      exact .inr h

theorem twins_ofExcept {r : Except ParseError α} (h : ∀ a, r = .ok a → Q a) :
    Twins W (ofExcept r) (ofExcept r) Q := by
  cases r with
  | ok a => exact twins_pure (h a rfl)
  | error e => exact twins_fail e

theorem twins_ite {b : Prop} [Decidable b] {p q p' q' : Reading α} (yes : b → Twins W p q Q)
    (no : ¬ b → Twins W p' q' Q) : Twins W (if b then p else p') (if b then q else q') Q := by
  split
  · next hb => exact yes hb
  · next hb => exact no hb

theorem Twins.mono {p q : Reading α} (hp : Twins W p q P) (h : ∀ a, P a → Q a) : Twins W p q Q :=
  ⟨hp.same, hp.gives.mono h, hp.notes⟩

theorem Twins.bind {p q : Reading α} {f g : α → Reading β} {R : β → Prop} (hp : Twins W p q P)
    (hf : ∀ a, P a → Twins W (f a) (g a) R) : Twins W (p >>= f) (q >>= g) R := by
  obtain ⟨rfl, gives, notes⟩ := hp
  refine ⟨?_, gives.bind fun a ha => (hf a ha).gives, fun l name hn => ?_⟩
  · funext l
    cases hl : p l with
    | error e l' => rw [bind_of_error hl, bind_of_error hl]
    | ok a l' => rw [bind_of_ok hl, bind_of_ok hl, (hf a (gives.of_run_ok hl)).same]
  · have before := notes l
    cases hl : p l with
    | error e l' =>
      rw [bind_of_error hl] at hn
      rw [hl] at before
      exact before name hn
    | ok a l' =>
      rw [bind_of_ok hl] at hn
      rw [hl] at before
      rcases (hf a (gives.of_run_ok hl)).notes l' name hn with hn | hw
      · exact before name hn
      · exact .inr hw

theorem Twins.attempt {p q : Reading α} (hp : Twins W p q P) :
    Twins W p.attempt q.attempt fun r => ∀ a, r = some a → P a := by
  obtain ⟨rfl, gives, notes⟩ := hp
  refine ⟨rfl, gives.attempt, fun l name hn => notes l name ?_⟩
  unfold Reading.attempt at hn
  split at hn
  · next hl => rwa [hl]
  · next hl =>
    rw [hl]
    split at hn
    · exact hn
    · exact hn

/-- The first of several readings that matches, where the first ones and the others are twins. -/
theorem Twins.orElse {p q : Reading α} {ps qs : List (Reading α)} {otherwise : ParseError}
    (hp : Twins W p q Q) (rest : Twins W (firstOf otherwise ps) (firstOf otherwise qs) Q) :
    Twins W (firstOf otherwise (p :: ps)) (firstOf otherwise (q :: qs)) Q := by
  refine hp.attempt.bind fun r hr => ?_
  cases r with
  | some a => exact twins_pure (hr a rfl)
  | none => exact rest

theorem Twins.withNotes {p q : Reading α} (hp : Twins W p q P) :
    Twins W p.withNotes q.withNotes fun r => P r.1 ∧ ∀ name ∈ r.2, W name := by
  obtain ⟨rfl, gives, notes⟩ := hp
  cases hl : p [] with
  | ok a own =>
    have run (l : List String) : p.withNotes l = .ok (a, own) l := by rw [Reading.withNotes, hl]
    have noted : ∀ name ∈ own, W name := fun name hn => by
      have known := notes [] name (by rw [hl]; exact hn)
      exact known.resolve_left List.not_mem_nil
    refine ⟨rfl, .ok (a, own) ⟨gives.of_run_ok hl, noted⟩ fun l => ⟨l, Grows.refl l, run l⟩, fun l name hn => ?_⟩
    rw [run] at hn
    exact .inl hn
  | error e own =>
    have run (l : List String) : p.withNotes l = .error e l := by rw [Reading.withNotes, hl]
    have reported : Reported e := gives.of_outcome_error (by rw [outcome, hl])
    refine ⟨rfl, .error e reported fun l => ⟨l, Grows.refl l, run l⟩, fun l name hn => ?_⟩
    rw [run] at hn
    exact .inl hn

end TwinRules

end Gapscript.Reading
