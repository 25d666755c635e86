import Gapscript.Scope.State

/-!
# What can be called by a name

In each frame a name may stand for a variable, which can expire, and for a function, which cannot. Both
look-ups for something callable go outwards from the innermost frame; the loose one takes the first thing
that can be called (`callableIn_loose`), and the strict one ends at the first live variable of the name. So
they differ exactly where a live variable that holds no function shadows something callable
(`shadowed_iff`).
-/

namespace Gapscript.State

variable {s : State} {f : Frame} {fs : List Frame} {name : String} {v : Variable} {fn : FunctionRef}

/-! ## One frame -/

/-- Neither a live variable nor a function of the frame has the name. -/
def SilentIn (s : State) (name : String) (f : Frame) : Prop :=
  s.liveIn f name = none ∧ f.function? name = none

/-- A live variable of the frame has the name and holds the function. -/
def HoldsIn (s : State) (name : String) (f : Frame) (fn : FunctionRef) : Prop :=
  ∃ v, s.liveIn f name = some v ∧ v.value = .function fn

/-- A live variable of the frame has the name and holds something else than a function. -/
def ShadowsIn (s : State) (name : String) (f : Frame) : Prop :=
  ∃ v, s.liveIn f name = some v ∧ ∀ fn, v.value ≠ .function fn

theorem callableIn_of_holds (strict : Bool) (h : s.HoldsIn name f fn) :
    s.callableIn strict name (f :: fs) = some fn := by
  obtain ⟨⟨_, value, _, _, _, _, _⟩, live, rfl⟩ := h
  rw [callableIn, live]

theorem callableIn_of_shadows (strict : Bool) (h : s.ShadowsIn name f) :
    s.callableIn strict name (f :: fs) =
      if strict then none else (f.function? name).orElse fun _ => s.callableIn strict name fs := by
  obtain ⟨⟨_, value, _, _, _, _, _⟩, live, other⟩ := h
  rw [callableIn, live]
  cases value with
  | function fn => exact absurd rfl (other fn)
  | _ => rfl

theorem callableIn_of_dead (strict : Bool) (h : s.liveIn f name = none) :
    s.callableIn strict name (f :: fs) =
      (f.function? name).orElse fun _ => s.callableIn strict name fs := by
  rw [callableIn, h]

/-- What a live variable of the name can be. -/
theorem dead_or_holds_or_shadows (s : State) (name : String) (f : Frame) :
    s.liveIn f name = none ∨ (∃ fn, s.HoldsIn name f fn) ∨ s.ShadowsIn name f := by
  cases live : s.liveIn f name with
  | none => exact .inl rfl
  | some v =>
    right
    cases value : v.value with
    | function fn => exact .inl ⟨fn, v, live, value⟩
    | _ => exact .inr ⟨v, live, fun fn same => by simp [value] at same⟩

theorem ShadowsIn.not_holds (h : s.ShadowsIn name f) : ¬ s.HoldsIn name f fn := by
  rintro ⟨w, live', held⟩
  obtain ⟨v, live, other⟩ := h
  rw [live] at live'
  exact other fn (Option.some.inj live' ▸ held)

theorem ShadowsIn.not_silent (h : s.ShadowsIn name f) : ¬ s.SilentIn name f := by
  rintro ⟨dead, -⟩
  obtain ⟨v, live, -⟩ := h
  rw [live] at dead
  cases dead

/-! ## Loose look-ups -/

/-- A function of the name, or a live variable of the name that holds one, is in the frame. -/
def OffersIn (s : State) (name : String) (f : Frame) : Prop :=
  f.function? name ≠ none ∨ ∃ fn, s.HoldsIn name f fn

/-- A loose look-up finds something exactly if some frame offers it. -/
theorem callableIn_loose : s.callableIn false name fs ≠ none ↔ ∃ g ∈ fs, s.OffersIn name g := by
  induction fs with
  | nil => simp [callableIn]
  | cons f fs ih =>
    have onwards (nothing : ∀ fn, ¬ s.HoldsIn name f fn) :
        ((f.function? name).orElse fun _ => s.callableIn false name fs) ≠ none ↔
          ∃ g ∈ f :: fs, s.OffersIn name g := by
      have here : s.OffersIn name f ↔ f.function? name ≠ none :=
        or_iff_left fun ⟨fn, held⟩ => nothing fn held
      simp only [List.mem_cons, exists_eq_or_imp]
      rw [here, ← ih]
      cases f.function? name with
      | none => simp
      | some fn => simp
    rcases s.dead_or_holds_or_shadows name f with dead | ⟨fn, held⟩ | shadows
    · rw [callableIn_of_dead false dead]
      refine onwards fun fn ⟨v, live, _⟩ => ?_
      rw [dead] at live
      cases live
    · rw [callableIn_of_holds false held]
      exact iff_of_true (Option.some_ne_none fn) ⟨f, List.mem_cons_self, .inr ⟨fn, held⟩⟩
    · rw [callableIn_of_shadows false shadows, if_neg Bool.false_ne_true]
      exact onwards fun fn => shadows.not_holds

/-! ## Strict and loose look-ups -/

theorem callableIn_of_strict (h : s.callableIn true name fs = some fn) : s.callableIn false name fs = some fn := by
  induction fs with
  | nil => exact h
  | cons f fs ih =>
    rcases s.dead_or_holds_or_shadows name f with dead | ⟨held, holds⟩ | shadows
    · rw [callableIn_of_dead _ dead] at h ⊢
      cases found : f.function? name with
      | none =>
        rw [found] at h
        exact ih h
      | some g => rwa [found] at h
    · rwa [callableIn_of_holds _ holds] at h ⊢
    · rw [callableIn_of_shadows _ shadows] at h
      cases h

/-- Where no variable of the name is alive, only functions are found. -/
theorem callableIn_of_all_dead (strict : Bool) (h : ∀ f ∈ fs, s.liveIn f name = none) :
    s.callableIn strict name fs = fs.findSome? (·.function? name) := by
  induction fs with
  | nil => rfl
  | cons f fs ih =>
    obtain ⟨dead, later⟩ := List.forall_mem_cons.1 h
    rw [callableIn_of_dead _ dead, ih later, List.findSome?_cons]
    cases f.function? name with
    | none => rfl
    | some fn => rfl

/-- Going outwards, the first frame that is not silent on the name has a live variable that holds no
function, and there or further out something of the name can be called. -/
def Shadowed (s : State) (name : String) (frames : List Frame) : Prop :=
  ∃ inner f outer, frames = inner ++ f :: outer ∧ (∀ g ∈ inner, s.SilentIn name g) ∧ s.ShadowsIn name f ∧
    ∃ g ∈ f :: outer, s.OffersIn name g

theorem shadowed_cons_of_silent (h : s.SilentIn name f) : s.Shadowed name (f :: fs) ↔ s.Shadowed name fs := by
  constructor
  · rintro ⟨inner, g, outer, split, silent, shadows, offered⟩
    cases inner with
    | nil =>
      cases split
      exact absurd h shadows.not_silent
    | cons f' inner =>
      cases split
      exact ⟨inner, g, outer, rfl, (List.forall_mem_cons.1 silent).2, shadows, offered⟩
  · rintro ⟨inner, g, outer, rfl, silent, shadows, offered⟩
    exact ⟨f :: inner, g, outer, rfl, List.forall_mem_cons.2 ⟨h, silent⟩, shadows, offered⟩

theorem shadowed_cons_of_not_silent (h : ¬ s.SilentIn name f) :
    s.Shadowed name (f :: fs) ↔ s.ShadowsIn name f ∧ ∃ g ∈ f :: fs, s.OffersIn name g := by
  constructor
  · rintro ⟨inner, g, outer, split, silent, shadows, offered⟩
    cases inner with
    | nil =>
      cases split
      exact ⟨shadows, offered⟩
    | cons f' inner =>
      cases split
      exact absurd (List.forall_mem_cons.1 silent).1 h
  · rintro ⟨shadows, offered⟩
    exact ⟨[], f, fs, rfl, fun g hg => absurd hg List.not_mem_nil, shadows, offered⟩

/-- Only the loose look-up finds something exactly if the name is shadowed. -/
theorem shadowed_iff : s.callableIn true name fs = none ∧ s.callableIn false name fs ≠ none ↔
    s.Shadowed name fs := by
  induction fs with
  | nil => simp [callableIn, Shadowed]
  | cons f fs ih =>
    -- Where the strict look-up succeeds, no frame may shadow the name.
    have found (fn : FunctionRef) (strict : s.callableIn true name (f :: fs) = some fn)
        (speaks : ¬ s.SilentIn name f) (clear : ¬ s.ShadowsIn name f) :
        s.callableIn true name (f :: fs) = none ∧ s.callableIn false name (f :: fs) ≠ none ↔
          s.Shadowed name (f :: fs) := by
      rw [shadowed_cons_of_not_silent speaks, strict]
      exact iff_of_false (fun both => Option.some_ne_none fn both.1) fun both => clear both.1
    rcases s.dead_or_holds_or_shadows name f with dead | ⟨fn, holds⟩ | shadows
    · cases bound : f.function? name with
      | none =>
        rw [shadowed_cons_of_silent ⟨dead, bound⟩, ← ih, callableIn_of_dead _ dead, callableIn_of_dead _ dead,
          bound]
        rfl
      | some fn =>
        refine found fn ?_ (fun silent => ?_) fun ⟨v, live, _⟩ => ?_
        · rw [callableIn_of_dead _ dead, bound]
          rfl
        · rw [silent.2] at bound
          cases bound
        · rw [dead] at live
          cases live
    · refine found fn (callableIn_of_holds true holds) (fun silent => ?_) fun shadows => shadows.not_holds holds
      obtain ⟨v, live, -⟩ := holds
      rw [silent.1] at live
      cases live
    · rw [shadowed_cons_of_not_silent shadows.not_silent, callableIn_loose, callableIn_of_shadows _ shadows,
        if_pos rfl]
      exact and_congr_left fun _ => iff_of_true rfl shadows

/-- What a strict look-up finds a loose one finds too. Without a live variable of the name both find the
innermost function, and only the loose one finds anything exactly if the first frame with a live variable or
a function of the name has a live variable that holds no function, and a function of the name or a live
variable that holds one is in that frame or further out. -/
theorem callables_agree (s : State) (name : String) :
    (∀ fn, s.lookupCallable true name = some fn → s.lookupCallable false name = some fn) ∧
    ((∀ f ∈ s.frames, s.liveIn f name = none) →
      ∀ strict, s.lookupCallable strict name = s.lookupFunction name) ∧
    (s.lookupCallable true name = none ∧ s.lookupCallable false name ≠ none ↔
      ∃ inner f outer, s.frames = inner ++ f :: outer ∧
        (∀ g ∈ inner, s.liveIn g name = none ∧ g.function? name = none) ∧
        (∃ v, s.liveIn f name = some v ∧ ∀ fn, v.value ≠ .function fn) ∧
        ∃ g ∈ f :: outer, g.function? name ≠ none ∨ ∃ fn v, s.liveIn g name = some v ∧ v.value = .function fn) :=
  ⟨fun _ => callableIn_of_strict, fun dead strict => callableIn_of_all_dead strict dead, shadowed_iff⟩

/-- A text shadows a function of an outer frame, and an expired one does not. -/
theorem callables_agree_shadowed :
    let fn : FunctionRef := ⟨0, { name := "f", body := .native 0 0 }⟩
    let text : Variable := ⟨"f", .string "shadow", .varVar, .lines 1, 1, false, (LifeTime.lines 1).window 1 0⟩
    let s : State := { frames := [⟨[text], []⟩, ⟨[], [fn]⟩], depth := 1 }
    let later : State := { s with line := 3 }
    s.lookupCallable true "f" = none ∧ s.lookupCallable false "f" = some fn ∧
      later.lookupCallable true "f" = some fn ∧ later.lookupCallable false "f" = some fn := by
  intro fn text s later
  have shadowed : s.lookupCallable true "f" = none := (((callables_agree s "f").2.2.2
    ⟨[], ⟨[text], []⟩, [⟨[], [fn]⟩], rfl, by simp, ⟨text, rfl, by simp [text]⟩,
      ⟨[], [fn]⟩, by simp, .inl (by decide)⟩)).1
  have found : later.lookupCallable true "f" = some fn :=
    (callables_agree later "f").2.1 (by decide) true
  exact ⟨shadowed, by decide, found, (callables_agree later "f").1 fn found⟩

end Gapscript.State
