import Gapscript.Proofs.Run.Forgetting
import Gapscript.Proofs.Value.Held
import Gapscript.Run.Statement

/-!
# What a state holds

`s.Stocked P W` says that every value a program can get hold of in the state satisfies `P`, and every
watch `W`. Each operation on a state keeps this, as long as the values that it puts there satisfy `P`.
References to objects that do not exist yet have to satisfy `P`, since new objects are found under them.
-/

namespace Gapscript

/-- Every value that the frame binds satisfies `P`. -/
structure Frame.Stocked (P : Value → Prop) (f : Frame) : Prop where
  vars : ∀ v ∈ f.vars, P v.value
  funcs : ∀ fn ∈ f.funcs, P (.function fn)

/-- Every value that the state binds satisfies `P`, and so do the values that its objects hold; its
watches satisfy `W`. -/
structure State.Stocked (P : Value → Prop) (W : Watch → Prop) (s : State) : Prop where
  frames : ∀ f ∈ s.frames, f.Stocked P
  heap : s.heap.All P
  fresh : ∀ ref, s.heap.objects.size ≤ ref → P (.object ref)
  watches : ∀ w ∈ s.watches, W w

variable {P : Value → Prop} {W : Watch → Prop}

namespace Frame.Stocked

variable {f : Frame}

theorem empty : Frame.Stocked P {} := ⟨(fun _ hv => nomatch hv), fun _ hf => nomatch hf⟩

theorem withVariable (h : f.Stocked P) {v : Variable} (hv : P v.value) : (f.withVariable v).Stocked P := by
  refine ⟨fun w hw => ?_, h.funcs⟩
  change w ∈ Frame.putVariable v f.vars at hw
  rw [Frame.putVariable_eq] at hw
  rcases Frame.mem_putBy hw with rfl | hw
  · exact hv
  · exact h.vars w hw

theorem withFunction (h : f.Stocked P) {fn : FunctionRef} (hfn : P (.function fn)) :
    (f.withFunction fn).Stocked P := by
  refine ⟨h.vars, fun g hg => ?_⟩
  change g ∈ Frame.putFunction fn f.funcs at hg
  rw [Frame.putFunction_eq] at hg
  rcases Frame.mem_putBy hg with rfl | hg
  · exact hfn
  · exact h.funcs g hg

theorem withValue (h : f.Stocked P) (name : String) {value : Value} (hv : P value) :
    (f.withValue name value).Stocked P := by
  refine ⟨fun w hw => ?_, h.funcs⟩
  rcases Frame.mem_assign hw with same | hw
  · rw [same]
    exact hv
  · exact h.vars w hw

end Frame.Stocked

theorem State.occupied_modifyTop (s : State) (g : Frame → Frame) : (s.modifyTop g).frames ≠ [] := by
  unfold State.modifyTop
  cases s.frames with
  | nil => exact List.cons_ne_nil _ _
  | cons f fs => exact List.cons_ne_nil _ _

namespace State.Stocked

variable {s t : State}

/-- What else the state holds does not matter. -/
theorem congr (h : s.Stocked P W) (frames : t.frames = s.frames) (heap : t.heap = s.heap)
    (watches : t.watches = s.watches) : t.Stocked P W :=
  ⟨frames ▸ h.frames, heap ▸ h.heap, heap ▸ h.fresh, watches ▸ h.watches⟩

theorem mono (h : s.Stocked P W) {Q : Value → Prop} {V : Watch → Prop} (same : ∀ v, P v → Q v)
    (back : ∀ ref, Q (.object ref) → P (.object ref)) (watches : ∀ w, W w → V w) : s.Stocked Q V where
  frames f hf := ⟨fun v hv => same _ ((h.frames f hf).vars v hv), fun fn hfn => same _ ((h.frames f hf).funcs fn hfn)⟩
  heap ref o href ho := fun e he => same _ (h.heap ref o (back ref href) ho e he)
  fresh ref new := same _ (h.fresh ref new)
  watches w hw := watches w (h.watches w hw)

/-! ## Frames -/

theorem modifyTop (h : s.Stocked P W) {g : Frame → Frame} (hg : ∀ f, f.Stocked P → (g f).Stocked P) :
    (s.modifyTop g).Stocked P W := by
  unfold State.modifyTop
  cases hf : s.frames with
  | nil => exact ⟨List.forall_mem_singleton.2 (hg {} .empty), h.heap, h.fresh, h.watches⟩
  | cons f fs =>
    have frames := h.frames
    rw [hf] at frames
    obtain ⟨first, rest⟩ := List.forall_mem_cons.1 frames
    exact ⟨List.forall_mem_cons.2 ⟨hg f first, rest⟩, h.heap, h.fresh, h.watches⟩

theorem declare (h : s.Stocked P W) (name : String) {v : Value} (hv : P v) (m : Mutability)
    (life : LifeTime) : (s.declare name v m life).Stocked P W :=
  h.modifyTop fun _ hf => hf.withVariable (v := ⟨name, v, m, life, s.line, false, _⟩) hv

theorem declareHoisted (h : s.Stocked P W) (name : String) {v : Value} (hv : P v) (m : Mutability)
    (life : LifeTime) (line : Int) : (s.declareHoisted name v m life line).Stocked P W := by
  have bound {t : State} (ht : t.Stocked P W) :=
    ht.modifyTop fun _ hf => hf.withVariable (v := ⟨name, v, m, life, line, true, life.window line t.now⟩) hv
  cases v with
  | function f =>
    exact bound (t := { s with hoistedFunctions := f.id :: s.hoistedFunctions }) (h.congr rfl rfl rfl)
  | _ => exact bound h

theorem define (h : s.Stocked P W) {fn : FunctionRef} (hfn : P (.function fn)) : (s.define fn).Stocked P W :=
  h.modifyTop fun _ hf => hf.withFunction hfn

theorem bindParams (h : s.Stocked P W) (ps : List String) {vs : List Value} (hvs : ∀ v ∈ vs, P v) :
    (Gapscript.bindParams ps vs s).Stocked P W := by
  induction ps generalizing vs s with
  | nil => exact h
  | cons p ps ih =>
    cases vs with
    | nil => exact h
    | cons v vs =>
      obtain ⟨first, rest⟩ := List.forall_mem_cons.1 hvs
      exact ih (h.declare p first .varVar .forever) rest

theorem assign (h : s.Stocked P W) (name : String) {v : Value} (hv : P v) : (s.assign name v).Stocked P W := by
  have all (fs : List Frame) (hfs : ∀ f ∈ fs, f.Stocked P) : ∀ f ∈ s.assignIn name v fs, f.Stocked P := by
    induction fs with
    | nil => exact hfs
    | cons f fs ih =>
      obtain ⟨first, rest⟩ := List.forall_mem_cons.1 hfs
      rw [State.assignIn]
      split
      · exact List.forall_mem_cons.2 ⟨first.withValue name hv, rest⟩
      · exact List.forall_mem_cons.2 ⟨first, ih rest⟩
  exact ⟨all s.frames h.frames, h.heap, h.fresh, h.watches⟩

theorem push (h : s.Stocked P W) (entered : s.push = .ok t) : t.Stocked P W := by
  unfold State.push at entered
  split at entered
  · cases entered
  · cases entered
    exact ⟨List.forall_mem_cons.2 ⟨.empty, h.frames⟩, h.heap, h.fresh, h.watches⟩

theorem pop (h : s.Stocked P W) (left : s.pop? = some t) : t.Stocked P W := by
  unfold State.pop? at left
  split at left
  · next hf =>
    cases left
    refine ⟨fun f here => h.frames f (by rw [hf]; exact List.mem_cons_of_mem _ here), h.heap, h.fresh, ?_⟩
    exact fun w hw => h.watches w (List.mem_filter.1 hw).1
  · cases left

/-! ## What is found -/

theorem lookupVariable (h : s.Stocked P W) {name : String} {v : Variable}
    (hv : s.lookupVariable name = some v) : P v.value := by
  obtain ⟨f, hf, live⟩ := List.exists_of_findSome?_eq_some hv
  have bound := (Option.filter_eq_some_iff.1 live).1
  exact (h.frames f hf).vars v (List.mem_of_find?_eq_some bound)

theorem lookupCallable (h : s.Stocked P W) {strict : Bool} {name : String} {fn : FunctionRef}
    (hfn : s.lookupCallable strict name = some fn) : P (.function fn) := by
  have all (fs : List Frame) (hfs : ∀ f ∈ fs, f.Stocked P)
      (hfn : s.callableIn strict name fs = some fn) : P (.function fn) := by
    induction fs with
    | nil => cases hfn
    | cons f fs ih =>
      obtain ⟨first, rest⟩ := List.forall_mem_cons.1 hfs
      have later (hfn : (f.function? name).orElse (fun _ => s.callableIn strict name fs) = some fn) :
          P (.function fn) := by
        cases hf : f.function? name with
        | none =>
          rw [hf] at hfn
          exact ih rest hfn
        | some g =>
          rw [hf] at hfn
          cases hfn
          exact first.funcs fn (List.mem_of_find?_eq_some hf)
      rw [State.callableIn] at hfn
      split at hfn
      · next live =>
        cases hfn
        have bound := (Option.filter_eq_some_iff.1 live).1
        exact first.vars _ (List.mem_of_find?_eq_some bound)
      · split at hfn
        · cases hfn
        · exact later hfn
      · exact later hfn
  exact all s.frames h.frames hfn

/-! ## Objects -/

theorem newObject (h : s.Stocked P W) {o : Object} (ho : o.All P) :
    (s.newObject o).2.Stocked P W ∧ P (s.newObject o).1 := by
  refine ⟨⟨h.frames, h.heap.alloc ho, fun ref new => h.fresh ref ?_, h.watches⟩, h.fresh _ (Nat.le_refl _)⟩
  change (s.heap.objects.push o).size ≤ ref at new
  rw [Array.size_push] at new
  omega

theorem setProperty (h : s.Stocked P W) (ref : Nat) (key : String) {v : Value} (hv : P v) :
    ({ s with heap := s.heap.setProperty ref key v } : State).Stocked P W := by
  refine ⟨h.frames, h.heap.setProperty ref key hv, fun ref' new => h.fresh ref' ?_, h.watches⟩
  change (s.heap.objects.modify ref (·.set key v)).size ≤ ref' at new
  rwa [Array.size_modify] at new

/-! ## Watches -/

theorem addWatch (h : s.Stocked P W) {bs : List Branch} {deps : List String} {line : Int}
    (hw : ∀ snapshot, W ⟨bs, deps, snapshot, false, line, s.depth⟩) :
    (s.addWatch bs deps line).Stocked P W := by
  refine ⟨h.frames, h.heap, h.fresh, fun w among => ?_⟩
  rcases List.mem_append.1 among with among | among
  · exact h.watches w among
  · cases List.mem_singleton.1 among
    exact hw _

theorem modifyWatch (h : s.Stocked P W) (i : Nat) {g : Watch → Watch} (hg : ∀ w, W w → W (g w)) :
    (s.modifyWatch i g).Stocked P W := by
  refine ⟨h.frames, h.heap, h.fresh, fun w hw => ?_⟩
  obtain ⟨j, hj⟩ := List.mem_iff_getElem?.1 hw
  change (s.watches.modify i g)[j]? = some w at hj
  rw [List.getElem?_modify] at hj
  obtain ⟨v, hv, rfl⟩ := Option.map_eq_some_iff.1 hj
  have known := h.watches v (List.mem_of_getElem? hv)
  split
  · exact hg v known
  · exact known

end State.Stocked

end Gapscript
