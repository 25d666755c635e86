import Gapscript.Proofs.Run.Frames
import Gapscript.Session.Library

/-!
# Nested bodies leave the scopes around them alone

The shape of a frame is what it binds without the values of its variables, and the shape of a watch
is what it was declared with. A run in a frame keeps the shape of everything below that frame
(`Contract.below`); so what runs in a new frame keeps the shape of every frame that was there
before, and expressions, branches and watches, which only run things in new frames, do so too
(`Pact.around`).
-/

namespace Gapscript

/-! ## Shapes -/

/-- A variable without its value. -/
def Variable.shape (v : Variable) : Variable := { v with value := .undefined }

/-- A frame without the values of its variables. -/
def Frame.shape (f : Frame) : Frame := { f with vars := f.vars.map Variable.shape }

/-- A watch as it was declared: without what it depends on, what it saw last, and whether it is
firing. -/
def Watch.shape (w : Watch) : Watch := { w with deps := [], snapshot := [], firing := false }

namespace State

variable {s t u v w : State}

/-- The shapes of the watches that belong to frames of the stack. -/
def ownWatches (s : State) : List Watch := (s.watches.map Watch.shape).filter (·.height ≤ s.depth)

/-- The shapes of the watches that belong to frames below the innermost one. -/
def watchesBelow (s : State) : List Watch := (s.watches.map Watch.shape).filter (·.height < s.depth)

/-- The frames of two states have the same shapes, and so have the watches that belong to them. -/
structure SameScopes (s t : State) : Prop where
  depth : t.depth = s.depth
  frames : t.frames.map Frame.shape = s.frames.map Frame.shape
  watches : t.ownWatches = s.ownWatches

/-- The frames below the innermost ones of two states have the same shapes, and so have the watches
that belong to them. -/
structure SameBelow (s t : State) : Prop where
  depth : t.depth = s.depth
  height : t.frames.length = s.frames.length
  frames : t.frames.tail.map Frame.shape = s.frames.tail.map Frame.shape
  watches : t.watchesBelow = s.watchesBelow

theorem SameScopes.refl (s : State) : s.SameScopes s := ⟨rfl, rfl, rfl⟩

theorem SameScopes.trans (h : s.SameScopes t) (k : t.SameScopes u) : s.SameScopes u :=
  ⟨k.depth.trans h.depth, k.frames.trans h.frames, k.watches.trans h.watches⟩

theorem SameBelow.refl (s : State) : s.SameBelow s := ⟨rfl, rfl, rfl, rfl⟩

theorem SameBelow.trans (h : s.SameBelow t) (k : t.SameBelow u) : s.SameBelow u :=
  ⟨k.depth.trans h.depth, k.height.trans h.height, k.frames.trans h.frames, k.watches.trans h.watches⟩

theorem watchesBelow_eq (s : State) : s.watchesBelow = s.ownWatches.filter (·.height < s.depth) := by
  rw [ownWatches, List.filter_filter, watchesBelow]
  refine List.filter_congr fun w _ => ?_
  by_cases h : w.height < s.depth
  · simp [h, Nat.le_of_lt h]
  · simp [h]

theorem SameScopes.below (h : s.SameScopes t) : s.SameBelow t := by
  refine ⟨h.depth, ?_, ?_, ?_⟩
  · have same := congrArg List.length h.frames
    rwa [List.length_map, List.length_map] at same
  · rw [List.map_tail, List.map_tail, h.frames]
  · rw [watchesBelow_eq, watchesBelow_eq, h.watches, h.depth]

/-! ## Steps -/

theorem shape_assign (name : String) (value : Value) (vars : List Variable) :
    (Frame.assign name value vars).map Variable.shape = vars.map Variable.shape := by
  induction vars with
  | nil => rfl
  | cons x xs ih =>
    rw [Frame.assign]
    split
    · rfl
    · rw [List.map_cons, ih, List.map_cons]

theorem sameScopes_assign (s : State) (name : String) (value : Value) : s.SameScopes (s.assign name value) := by
  have same (fs : List Frame) : (s.assignIn name value fs).map Frame.shape = fs.map Frame.shape := by
    induction fs with
    | nil => rfl
    | cons f fs ih =>
      rw [assignIn]
      split
      · rw [List.map_cons, List.map_cons, Frame.shape, shape_assign]
        rfl
      · rw [List.map_cons, ih, List.map_cons]
  exact ⟨rfl, same s.frames, rfl⟩

/-- Changing what a watch depends on, what it saw last or whether it is firing keeps its shape. -/
theorem sameScopes_modifyWatch (s : State) (i : Nat) {f : Watch → Watch} (hf : ∀ w, (f w).shape = w.shape) :
    s.SameScopes (s.modifyWatch i f) := by
  have same : (s.watches.modify i f).map Watch.shape = s.watches.map Watch.shape := by
    refine List.ext_getElem? fun j => ?_
    rw [List.getElem?_map, List.getElem?_map, List.getElem?_modify]
    cases s.watches[j]? with
    | none => rfl
    | some w =>
      by_cases hij : i = j
      · simp [hij, hf]
      · simp [hij]
  exact ⟨rfl, rfl, congrArg (List.filter fun w : Watch => w.height ≤ s.depth) same⟩

/-- What is done to the innermost frame keeps the frames below it. -/
theorem sameBelow_modifyTop (hs : s.frames ≠ []) (f : Frame → Frame) : s.SameBelow (s.modifyTop f) := by
  unfold modifyTop
  cases hf : s.frames with
  | nil => exact absurd hf hs
  | cons top rest => exact ⟨rfl, by rw [hf]; rfl, by rw [hf]; rfl, rfl⟩

/-- A new watch belongs to the innermost frame. -/
theorem sameBelow_addWatch (s : State) (bs : List Branch) (deps : List String) (line : Int) :
    s.SameBelow (s.addWatch bs deps line) := by
  refine ⟨rfl, rfl, rfl, ?_⟩
  have above (w : Watch) (hw : w.height = s.depth) : [w.shape].filter (·.height < s.depth) = [] := by
    simp [Watch.shape, hw]
  change ((s.watches ++ [_]).map Watch.shape).filter (·.height < s.depth) = s.watchesBelow
  rw [List.map_append, List.filter_append, watchesBelow, List.map_singleton, above _ rfl, List.append_nil]

end State

/-- A native function keeps the shapes of the frames and watches. -/
def HostFunction.KeepsScopes (f : HostFunction) : Prop :=
  ∀ call (s : State), s.SameScopes (Run.reached (f.handler call) s)

section Steps

variable {host : Host} (natives : ∀ f ∈ host.functions, f.KeepsScopes) {s t : State}

include natives

theorem sameScopes_passive (h : Passive host s t) : s.SameScopes t := by
  cases h with
  | snapshot i w here => exact s.sameScopes_modifyWatch i fun _ => rfl
  | firing i on => exact s.sameScopes_modifyWatch i fun _ => rfl
  | depend i deps => exact s.sameScopes_modifyWatch i fun _ => rfl
  | native f call known => exact natives f known call s
  | record r | newObject o | newFunction fn => exact ⟨rfl, rfl, rfl⟩

theorem sameBelow_step (hs : s.frames ≠ []) (h : Step host s t) : s.SameBelow t := by
  cases h with
  | declare name v m life => exact State.sameBelow_modifyTop hs _
  | declareHoisted name v m life line =>
    unfold State.declareHoisted
    cases v with
    | function f =>
      let noted : State := { s with hoistedFunctions := f.id :: s.hoistedFunctions }
      have same : s.SameBelow noted := ⟨rfl, rfl, rfl, rfl⟩
      have bound := State.sameBelow_modifyTop (s := noted) hs
      exact same.trans (bound _)
    | _ => exact State.sameBelow_modifyTop hs _
  | define fn => exact State.sameBelow_modifyTop hs _
  | assign name mode old rhs new => exact (s.sameScopes_assign name new).below
  | addWatch bs deps line => exact s.sameBelow_addWatch bs deps line
  | snapshot i w here => exact (sameScopes_passive natives (.snapshot s i w here)).below
  | firing i on => exact (sameScopes_passive natives (.firing s i on)).below
  | depend i deps => exact (sameScopes_passive natives (.depend s i deps)).below
  | native f call known => exact (natives f known call s).below
  | line | record | setProperty | newObject | newFunction | produce => exact ⟨rfl, rfl, rfl, rfl⟩

end Steps

/-! ## Frames -/

namespace State

variable {s u v : State}

/-- After a frame that was entered is left, the frames below it are the frames there are. -/
theorem sameScopes_pop (entered : s.push = .ok u) (inside : u.SameBelow v) :
    ∃ w, v.pop? = some w ∧ s.SameScopes w := by
  obtain ⟨-, rfl⟩ := push_eq_ok entered
  have depth : v.depth = s.depth + 1 := inside.depth
  have height : v.frames.length = s.frames.length + 1 := inside.height
  have frames : v.frames.tail.map Frame.shape = s.frames.map Frame.shape := inside.frames
  have watches : (v.watches.map Watch.shape).filter (·.height < v.depth) =
      (s.watches.map Watch.shape).filter (·.height < s.depth + 1) := inside.watches
  rw [depth] at watches
  simp only [Nat.lt_succ_iff] at watches
  have own : ((v.watches.filter (·.height ≤ s.depth)).map Watch.shape).filter (·.height ≤ s.depth) =
      s.ownWatches := by
    rw [ownWatches, ← watches, List.filter_map, List.filter_map]
    change ((v.watches.filter fun w => w.height ≤ s.depth).filter fun w => w.height ≤ s.depth).map Watch.shape =
      (v.watches.filter fun w => w.height ≤ s.depth).map Watch.shape
    rw [List.filter_filter]
    simp only [Bool.and_self]
  unfold pop?
  rw [depth]
  cases hf : v.frames with
  | nil => rw [hf] at height; cases height
  | cons top rest =>
    rw [hf] at frames
    exact ⟨_, rfl, rfl, frames, own⟩

end State

namespace Contract

variable {host : Host} (natives : ∀ f ∈ host.functions, f.KeepsScopes)

/-- A run in a frame keeps the shape of everything below it. -/
def below : Contract host where
  Pre s := s.frames ≠ []
  Change := State.SameBelow
  Raised _ := True
  refl _ := .refl _
  trans := .trans
  stable hs h := by
    intro none
    have height := h.height
    rw [none] at height
    exact hs (List.length_eq_zero_iff.1 height.symm)
  step hs h := sameBelow_step natives hs h
  ordinary _ := trivial
  located _ _ := trivial
  native _ _ _ _ _ _ := trivial

end Contract

namespace Pact

variable {host : Host} (natives : ∀ f ∈ host.functions, f.KeepsScopes)

/-- What runs only in new frames keeps the shape of everything there is. -/
def around : Pact host where
  Pre _ := True
  Change := State.SameScopes
  Raised _ := True
  refl _ := .refl _
  trans := .trans
  stable _ _ := trivial
  passive _ h := sameScopes_passive natives h
  ordinary _ := trivial
  located _ _ := trivial
  native _ _ _ _ _ _ := trivial

end Pact

namespace Contract

variable {host : Host} (natives : ∀ f ∈ host.functions, f.KeepsScopes)

theorem encloses_below : (below natives).Encloses (below natives) where
  enter _ entered := by
    obtain ⟨-, rfl⟩ := State.push_eq_ok entered
    exact List.cons_ne_nil _ _
  leave _ entered inside := by
    obtain ⟨w, left, same⟩ := State.sameScopes_pop entered inside
    rw [Run.leave, left]
    exact same.below
  raised _ := trivial

theorem encloses_around : (Pact.around natives).Encloses (below natives) where
  enter _ entered := by
    obtain ⟨-, rfl⟩ := State.push_eq_ok entered
    exact List.cons_ne_nil _ _
  leave _ entered inside := by
    obtain ⟨w, left, same⟩ := State.sameScopes_pop entered inside
    rw [Run.leave, left]
    exact same
  raised _ := trivial

theorem nested_around (n : Nat) : (Pact.around natives).Nested (innerAt host n) (innerAt host n) :=
  ⟨below natives, encloses_around natives, bodies_innerAt (encloses_below natives) trivial n⟩

end Contract

/-! ## Nested bodies -/

/-- The run keeps the shapes of all frames and watches, whatever its outcome. -/
def Run.KeepsScopes {α : Type} (x : Run α) (s : State) : Prop := s.SameScopes (x.reached s)

/-- Every block, branch, call and watch that is run, at any depth of frames and with any outcome,
keeps the shapes of the frames and watches that were there before, and so do the expressions and the
looks at watches that lead to them. -/
theorem nested_bodies_keep_scopes {host : Host} (natives : ∀ f ∈ host.functions, f.KeepsScopes)
    (n : Nat) (s : State) :
    (∀ collect body, (runBlock (innerAt host n) collect body).KeepsScopes s) ∧
    (∀ collect bs, (runBranches host (innerAt host n) collect bs).KeepsScopes s) ∧
    (∀ fn args pos, (callFunction host (innerAt host n) fn args pos).KeepsScopes s) ∧
    (∀ i w, (fireWatch host (innerAt host n) i w).KeepsScopes s) ∧
    (∀ e, (eval host (innerAt host n) e).KeepsScopes s) ∧
    (checkWatches host (innerAt host n)).KeepsScopes s := by
  have nested := Contract.nested_around natives n
  have kept {α : Type} {x : Run α} (h : (Pact.around natives).Agree s x x) : x.KeepsScopes s := h.2.change
  refine ⟨?_, ?_, ?_, ?_, ?_, ?_⟩
  · exact fun collect body => kept (Contract.agree_runBlock nested trivial collect body)
  · exact fun collect bs => kept (Contract.agree_runBranches nested trivial collect bs)
  · exact fun fn args pos => kept (Contract.agree_callFunction nested trivial fn args pos)
  · exact fun i w => kept (Contract.agree_fireWatch nested trivial i w)
  · exact fun e => kept (Contract.agree_eval nested e trivial)
  · exact kept (Contract.agree_checkWatches nested trivial)

/-- A block that assigns, declares a variable, defines a function and attaches a watch leaves the
frame around it with the one variable that it had, and attaches no watch to it. -/
theorem nested_bodies_keep_scopes_block :
    let host : Host := ⟨#[Library.print], false⟩
    let s : State := { frames := [{ vars := [⟨"x", .bigint 1, .varVar, .forever, 1, false, {}⟩] }] }
    let body : Cursor := Cursor.start "x = 2n! var var y = x! f id a => a! when x \x7b print y! \x7d" ""
    (∀ f ∈ host.functions, f.KeepsScopes) ∧
      ∃ t, (runBlock (innerAt host 3) true body).reached s = t ∧
        t.frames.map Frame.shape = s.frames.map Frame.shape ∧ t.ownWatches = [] := by
  intro host s body
  have natives : ∀ f ∈ host.functions, f.KeepsScopes := by
    intro f hf
    obtain rfl : f = Library.print := by simpa [host] using hf
    exact fun call s => ⟨rfl, rfl, rfl⟩
  have kept := (nested_bodies_keep_scopes natives 3 s).1 true body
  exact ⟨natives, _, rfl, kept.frames, kept.watches⟩

end Gapscript
