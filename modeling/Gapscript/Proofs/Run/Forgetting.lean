import Gapscript.Run.Watch

/-!
# Forgetting a name

`s.without z` is the state `s` without what is bound to `z` in any frame, and `s.only z` is what is
bound to `z` in each of its frames. Looking up another name gives the same in both states, and every
change that concerns another name commutes with forgetting `z` and leaves what is bound to `z` as it
was.
-/

namespace Gapscript

/-! ## Frames -/

namespace Frame

/-- Replaces the element of the same key, or adds one. -/
def putBy {α : Type} (key : α → String) (x : α) : List α → List α
  | [] => [x]
  | y :: ys => if key y = key x then x :: ys else y :: putBy key x ys

theorem putVariable_eq (v : Variable) (ws : List Variable) : putVariable v ws = putBy Variable.name v ws := by
  induction ws with
  | nil => rfl
  | cons w ws ih => rw [putVariable, putBy, ih]

theorem putFunction_eq (f : FunctionRef) (gs : List FunctionRef) :
    putFunction f gs = putBy (·.code.name) f gs := by
  induction gs with
  | nil => rfl
  | cons g gs ih => rw [putFunction, putBy, ih]

section Keys

variable {α : Type} {key : α → String} {q : String → Bool} {name : String} {x : α}

theorem find?_filter_key (h : q name) (xs : List α) :
    (xs.filter (q <| key ·)).find? (key · = name) = xs.find? (key · = name) := by
  induction xs with
  | nil => rfl
  | cons x xs ih =>
    by_cases hx : key x = name
    · simp [hx, h]
    · by_cases kept : q (key x)
      · simp [hx, kept, ih]
      · simp [hx, kept, ih]

variable (key) in
theorem filter_putBy_of_kept (h : q (key x)) (ys : List α) :
    (putBy key x ys).filter (q <| key ·) = putBy key x (ys.filter (q <| key ·)) := by
  induction ys with
  | nil => simp [putBy, h]
  | cons y ys ih =>
    by_cases same : key y = key x
    · simp [putBy, same, h]
    · by_cases kept : q (key y)
      · simp [putBy, same, kept, ih]
      · simp [putBy, same, kept, ih]

variable (key) in
theorem filter_putBy_of_dropped (h : ¬ q (key x)) (ys : List α) :
    (putBy key x ys).filter (q <| key ·) = ys.filter (q <| key ·) := by
  induction ys with
  | nil => simp [putBy, h]
  | cons y ys ih =>
    by_cases same : key y = key x
    · simp [putBy, same, h]
    · simp [putBy, same, List.filter_cons, ih]

theorem mem_putBy {w : α} {ys : List α} (h : w ∈ putBy key x ys) : w = x ∨ w ∈ ys := by
  induction ys with
  | nil => exact .inl (List.mem_singleton.1 h)
  | cons y ys ih =>
    rw [putBy] at h
    split at h
    · rcases List.mem_cons.1 h with h | h
      · exact .inl h
      · exact .inr (List.mem_cons_of_mem y h)
    · rcases List.mem_cons.1 h with h | h
      · exact .inr (h ▸ List.mem_cons_self)
      · exact (ih h).imp_right (List.mem_cons_of_mem y)

end Keys

section Assign

variable {q : String → Bool} {name : String}

theorem filter_assign_of_kept (h : q name) (value : Value) (ws : List Variable) :
    (assign name value ws).filter (q ·.name) = assign name value (ws.filter (q ·.name)) := by
  induction ws with
  | nil => rfl
  | cons w ws ih =>
    by_cases same : w.name = name
    · simp [assign, same, h]
    · by_cases kept : q w.name
      · simp [assign, same, kept, ih]
      · simp [assign, same, kept, ih]

theorem filter_assign_of_dropped (h : ¬ q name) (value : Value) (ws : List Variable) :
    (assign name value ws).filter (q ·.name) = ws.filter (q ·.name) := by
  induction ws with
  | nil => rfl
  | cons w ws ih =>
    by_cases same : w.name = name
    · simp [assign, same, h]
    · simp [assign, same, List.filter_cons, ih]

theorem mem_assign {value : Value} {w : Variable} {ws : List Variable} (h : w ∈ assign name value ws) :
    w.value = value ∨ w ∈ ws := by
  induction ws with
  | nil => cases h
  | cons x xs ih =>
    rw [assign] at h
    split at h
    · rcases List.mem_cons.1 h with h | h
      · exact .inl (h ▸ rfl)
      · exact .inr (List.mem_cons_of_mem x h)
    · rcases List.mem_cons.1 h with h | h
      · exact .inr (h ▸ List.mem_cons_self)
      · exact (ih h).imp_right (List.mem_cons_of_mem x)

end Assign

/-- The frame with the bindings of some names only. -/
def keep (q : String → Bool) (f : Frame) : Frame :=
  { vars := f.vars.filter (q ·.name), funcs := f.funcs.filter (q ·.code.name) }

/-- The frame without what is bound to a name. -/
def without (z : String) : Frame → Frame := keep (· ≠ z)

/-- What is bound to a name in the frame. -/
def only (z : String) : Frame → Frame := keep (· = z)

/-- The frame with a variable. -/
def withVariable (v : Variable) (f : Frame) : Frame := { f with vars := putVariable v f.vars }

/-- The frame with a function. -/
def withFunction (fn : FunctionRef) (f : Frame) : Frame := { f with funcs := putFunction fn f.funcs }

/-- The frame with another value of a variable. -/
def withValue (name : String) (value : Value) (f : Frame) : Frame :=
  { f with vars := assign name value f.vars }

section Keep

variable {q : String → Bool}

theorem keep_withVariable {v : Variable} (h : q v.name) (f : Frame) :
    (f.withVariable v).keep q = (f.keep q).withVariable v := by
  have kept := filter_putBy_of_kept Variable.name h f.vars
  rw [← putVariable_eq, ← putVariable_eq] at kept
  exact congrArg (Frame.mk · _) kept

theorem keep_withVariable_of_dropped {v : Variable} (h : ¬ q v.name) (f : Frame) :
    (f.withVariable v).keep q = f.keep q := by
  have dropped := filter_putBy_of_dropped Variable.name h f.vars
  rw [← putVariable_eq] at dropped
  exact congrArg (Frame.mk · _) dropped

theorem keep_withFunction {fn : FunctionRef} (h : q fn.code.name) (f : Frame) :
    (f.withFunction fn).keep q = (f.keep q).withFunction fn := by
  have kept := filter_putBy_of_kept (fun g : FunctionRef => g.code.name) h f.funcs
  rw [← putFunction_eq, ← putFunction_eq] at kept
  exact congrArg (Frame.mk _) kept

theorem keep_withFunction_of_dropped {fn : FunctionRef} (h : ¬ q fn.code.name) (f : Frame) :
    (f.withFunction fn).keep q = f.keep q := by
  have dropped := filter_putBy_of_dropped (fun g : FunctionRef => g.code.name) h f.funcs
  rw [← putFunction_eq] at dropped
  exact congrArg (Frame.mk _) dropped

theorem keep_withValue {name : String} (h : q name) (value : Value) (f : Frame) :
    (f.withValue name value).keep q = (f.keep q).withValue name value :=
  congrArg (Frame.mk · _) (filter_assign_of_kept h value f.vars)

theorem keep_withValue_of_dropped {name : String} (h : ¬ q name) (value : Value) (f : Frame) :
    (f.withValue name value).keep q = f.keep q :=
  congrArg (Frame.mk · _) (filter_assign_of_dropped h value f.vars)

end Keep

section Without

variable {z name : String}

theorem binding?_without (h : name ≠ z) (f : Frame) : (f.without z).binding? name = f.binding? name :=
  find?_filter_key (q := (· ≠ z)) (decide_eq_true h) f.vars

theorem function?_without (h : name ≠ z) (f : Frame) : (f.without z).function? name = f.function? name :=
  find?_filter_key (q := (· ≠ z)) (decide_eq_true h) f.funcs

theorem without_withVariable {v : Variable} (h : v.name ≠ z) (f : Frame) :
    (f.withVariable v).without z = (f.without z).withVariable v :=
  keep_withVariable (decide_eq_true h) f

theorem without_withVariable_self (v : Variable) (f : Frame) :
    (f.withVariable v).without v.name = f.without v.name :=
  keep_withVariable_of_dropped (by simp) f

theorem only_withVariable {v : Variable} (h : v.name ≠ z) (f : Frame) :
    (f.withVariable v).only z = f.only z :=
  keep_withVariable_of_dropped (by simpa using h) f

theorem without_withFunction {fn : FunctionRef} (h : fn.code.name ≠ z) (f : Frame) :
    (f.withFunction fn).without z = (f.without z).withFunction fn :=
  keep_withFunction (decide_eq_true h) f

theorem without_withFunction_self (fn : FunctionRef) (f : Frame) :
    (f.withFunction fn).without fn.code.name = f.without fn.code.name :=
  keep_withFunction_of_dropped (by simp) f

theorem only_withFunction {fn : FunctionRef} (h : fn.code.name ≠ z) (f : Frame) :
    (f.withFunction fn).only z = f.only z :=
  keep_withFunction_of_dropped (by simpa using h) f

theorem without_withValue (h : name ≠ z) (value : Value) (f : Frame) :
    (f.withValue name value).without z = (f.without z).withValue name value :=
  keep_withValue (decide_eq_true h) value f

theorem only_withValue (h : name ≠ z) (value : Value) (f : Frame) :
    (f.withValue name value).only z = f.only z :=
  keep_withValue_of_dropped (by simpa using h) value f

end Without

end Frame

/-! ## States -/

namespace State

/-- The state without what is bound to a name. -/
def without (z : String) (s : State) : State := { s with frames := s.frames.map (Frame.without z) }

/-- What is bound to a name in each frame. -/
def only (z : String) (s : State) : List Frame := s.frames.map (Frame.only z)

section Without

variable {z name : String} {s : State}

theorem produced_of_without {t : State} (h : t.without z = s.without z) : t.produced = s.produced := by
  have same := congrArg State.produced h
  exact same

theorem liveIn_without (h : name ≠ z) (f : Frame) :
    (s.without z).liveIn (f.without z) name = s.liveIn f name := by
  unfold liveIn
  rw [Frame.binding?_without h]
  rfl

theorem lookupVariable_without (h : name ≠ z) (s : State) :
    (s.without z).lookupVariable name = s.lookupVariable name := by
  change (s.frames.map (Frame.without z)).findSome? _ = _
  rw [List.findSome?_map]
  congr 1
  funext f
  exact liveIn_without h f

theorem lookupCallable_without (h : name ≠ z) (strict : Bool) (s : State) :
    (s.without z).lookupCallable strict name = s.lookupCallable strict name := by
  have same (fs : List Frame) :
      (s.without z).callableIn strict name (fs.map (Frame.without z)) = s.callableIn strict name fs := by
    induction fs with
    | nil => rfl
    | cons f fs ih =>
      rw [List.map_cons, callableIn, callableIn, liveIn_without h, ih, Frame.function?_without h]
  exact same s.frames

theorem valueOf_without (h : name ≠ z) (s : State) : (s.without z).valueOf name = s.valueOf name := by
  rw [valueOf, valueOf, lookupVariable_without h]

theorem valuesOf_without {names : List String} (h : ∀ name ∈ names, name ≠ z) (s : State) :
    (s.without z).valuesOf names = s.valuesOf names :=
  List.map_congr_left fun name hn => valueOf_without (h name hn) s

theorem modifyTop_without {g : Frame → Frame} (h : ∀ f, (g f).without z = g (f.without z)) (s : State) :
    (s.without z).modifyTop g = (s.modifyTop g).without z := by
  unfold modifyTop without
  cases hf : s.frames with
  | nil =>
    rw [List.map_nil, List.map_singleton, h]
    rfl
  | cons f fs => rw [List.map_cons, List.map_cons, h]

/-- A change to what is forgotten. -/
theorem without_modifyTop_of_same {g : Frame → Frame} (h : ∀ f, (g f).without z = f.without z)
    (hs : s.frames ≠ []) : (s.modifyTop g).without z = s.without z := by
  unfold modifyTop without
  cases hf : s.frames with
  | nil => exact absurd hf hs
  | cons f fs => rw [List.map_cons, List.map_cons, h]

theorem depth_modifyTop (s : State) (g : Frame → Frame) : (s.modifyTop g).depth = s.depth := by
  unfold modifyTop
  split
  · rfl
  · rfl

theorem only_modifyTop {g : Frame → Frame} (h : ∀ f, (g f).only z = f.only z) (hs : s.frames ≠ []) :
    (s.modifyTop g).only z = s.only z := by
  unfold modifyTop only
  cases hf : s.frames with
  | nil => exact absurd hf hs
  | cons f fs => rw [List.map_cons, List.map_cons, h]

theorem declare_without (h : name ≠ z) (s : State) (v : Value) (m : Mutability) (life : LifeTime) :
    (s.without z).declare name v m life = (s.declare name v m life).without z :=
  modifyTop_without (Frame.without_withVariable (v := ⟨name, v, m, life, s.line, false, _⟩) h) s

theorem only_declare (h : name ≠ z) (hs : s.frames ≠ []) (v : Value) (m : Mutability) (life : LifeTime) :
    (s.declare name v m life).only z = s.only z :=
  only_modifyTop (Frame.only_withVariable (v := ⟨name, v, m, life, s.line, false, _⟩) h) hs

theorem declareHoisted_without (h : name ≠ z) (s : State) (v : Value) (m : Mutability) (life : LifeTime)
    (line : Int) :
    (s.without z).declareHoisted name v m life line = (s.declareHoisted name v m life line).without z := by
  have bound (t : State) := modifyTop_without
    (Frame.without_withVariable (v := ⟨name, v, m, life, line, true, life.window line t.now⟩) h) t
  cases v with
  | function f => exact bound { s with hoistedFunctions := f.id :: s.hoistedFunctions }
  | _ => exact bound s

theorem only_declareHoisted (h : name ≠ z) (hs : s.frames ≠ []) (v : Value) (m : Mutability)
    (life : LifeTime) (line : Int) : (s.declareHoisted name v m life line).only z = s.only z := by
  have bound (t : State) := only_modifyTop (s := t)
    (Frame.only_withVariable (v := ⟨name, v, m, life, line, true, life.window line t.now⟩) h)
  cases v with
  | function f => exact bound { s with hoistedFunctions := f.id :: s.hoistedFunctions } hs
  | _ => exact bound s hs

theorem define_without {fn : FunctionRef} (h : fn.code.name ≠ z) (s : State) :
    (s.without z).define fn = (s.define fn).without z :=
  modifyTop_without (Frame.without_withFunction h) s

theorem only_define {fn : FunctionRef} (h : fn.code.name ≠ z) (hs : s.frames ≠ []) :
    (s.define fn).only z = s.only z :=
  only_modifyTop (Frame.only_withFunction h) hs

theorem assign_without (h : name ≠ z) (s : State) (value : Value) :
    (s.without z).assign name value = (s.assign name value).without z := by
  have same (fs : List Frame) : (s.without z).assignIn name value (fs.map (Frame.without z)) =
      (s.assignIn name value fs).map (Frame.without z) := by
    induction fs with
    | nil => rfl
    | cons f fs ih =>
      rw [List.map_cons, assignIn, assignIn, liveIn_without h]
      split
      · rw [List.map_cons]
        exact congrArg (· :: _) (Frame.without_withValue h value f).symm
      · rw [ih, List.map_cons]
  exact congrArg (fun fs => { s with frames := fs }) (same s.frames)

theorem only_assign (h : name ≠ z) (s : State) (value : Value) : (s.assign name value).only z = s.only z := by
  have same (fs : List Frame) : (s.assignIn name value fs).map (Frame.only z) = fs.map (Frame.only z) := by
    induction fs with
    | nil => rfl
    | cons f fs ih =>
      rw [assignIn]
      split
      · rw [List.map_cons, List.map_cons]
        exact congrArg (· :: _) (Frame.only_withValue h value f)
      · rw [List.map_cons, ih, List.map_cons]
  exact same s.frames

end Without

end State

end Gapscript
