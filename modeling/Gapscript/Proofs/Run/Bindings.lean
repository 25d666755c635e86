import Gapscript.Proofs.Run.Journey
import Gapscript.Proofs.Run.Scopes

/-!
# What becomes of a binding

A binding is a variable in the frame of a height. `Reframes` says what a move can do to the frames:
of all moves only four kinds concern bindings, and only one of them reaches below the innermost
frame. So until a binding is redeclared in its own frame, or its frame is left, everything about it
but its value stays, and its value changes only by assignments that its mutability admits.
-/

namespace Gapscript

/-! ## Mutability and assignments -/

/-- What each mutability admits on the bare name: a plain assignment needs a name that may be bound
anew, any other assignment a value that may be modified. -/
def Mutability.Admits : Mutability → AssignMode → Prop
  | .varVar, _ => True
  | .varConst, mode => mode = .plain
  | .constVar, mode => mode ≠ .plain
  | .constConst, _ => False

theorem admits_of_permitted {mode : AssignMode} {name : String} {m : Mutability}
    (h : mode.permitted name m = .ok ()) : m.Admits mode := by
  cases mode with
  | plain =>
    cases m with
    | varVar | varConst => trivial
    | constVar | constConst => cases h
  | compound op | step op =>
    cases m with
    | varVar => trivial
    | constVar => exact fun he => nomatch he
    | varConst | constConst => cases h

/-- The right side of an assignment; a step has none. -/
def Assignment.right (host : Host) (inner : Inner) (a : Assignment) : Run Value :=
  match a.value with
  | some e => eval host inner e
  | none => pure .undefined

/-- What each mutability admits of an assignment: through a path of accessors, only a value that may
be modified. -/
def Assignment.Admissible (a : Assignment) (m : Mutability) : Prop :=
  match a.accessors with
  | [] => m.Admits a.mode
  | _ :: _ => m.editable = true

theorem runAssignment_of_nil {host : Host} {inner : Inner} {a : Assignment} (path : a.accessors = []) :
    runAssignment host inner a = (do
      let rhs ← a.right host inner
      assignName a.name a.mode rhs) := by
  obtain ⟨name, _, mode, value⟩ := a
  cases path
  cases value with
  | none => rfl
  | some e => rfl

theorem runAssignment_of_cons {host : Host} {inner : Inner} {a : Assignment} {acc : Accessor} {accs : List Accessor}
    (path : a.accessors = acc :: accs) :
    runAssignment host inner a = (do
      let rhs ← a.right host inner
      assignProperty host inner a.name acc accs a.mode rhs) := by
  obtain ⟨name, _, mode, value⟩ := a
  cases path
  cases value with
  | none => rfl
  | some e => rfl

/-- An assignment that the mutability of its variable does not admit fails as soon as its right side
is known, and changes nothing. -/
theorem runAssignment_of_not_admissible {host : Host} {inner : Inner} {a : Assignment} {s t : State}
    {rhs : Value} {v : Variable} (right : a.right host inner s = .ok rhs t)
    (found : t.lookupVariable a.name = some v) (h : ¬ a.Admissible v.mutability) :
    ∃ f, runAssignment host inner a s = .error (.ofFault f) t := by
  unfold Assignment.Admissible at h
  cases path : a.accessors with
  | nil =>
    rw [path] at h
    cases permitted : a.mode.permitted a.name v.mutability with
    | ok _ => exact absurd (admits_of_permitted permitted) h
    | error f =>
      refine ⟨f, ?_⟩
      rw [runAssignment_of_nil path, Run.bind_of_ok right, assignName, Run.get_bind, found]
      dsimp only
      rw [permitted]
      rfl
  | cons acc accs =>
    rw [path] at h
    have refused : v.mutability.editable = false := Bool.not_eq_true _ ▸ h
    refine ⟨.modify a.name v.mutability, ?_⟩
    rw [runAssignment_of_cons path, Run.bind_of_ok right, assignProperty, Run.get_bind, found]
    dsimp only
    rw [refused]
    rfl

/-! ## Heights -/

/-- The frame of a height in a stack, innermost first. The global frame has height zero. -/
def Frame.ofHeight (frames : List Frame) (height : Nat) : Option Frame := frames.reverse[height]?

/-- The variable that the frame of a height binds to a name, alive or not. -/
def State.bindingAt (s : State) (height : Nat) (name : String) : Option Variable :=
  (Frame.ofHeight s.frames height).bind (·.binding? name)

theorem Frame.ofHeight_cons (f : Frame) (fs : List Frame) (height : Nat) :
    Frame.ofHeight (f :: fs) height = if height = fs.length then some f else Frame.ofHeight fs height := by
  unfold Frame.ofHeight
  rw [List.reverse_cons]
  by_cases below : height < fs.length
  · rw [List.getElem?_append_left (by simpa using below), if_neg (by omega)]
  · rw [List.getElem?_append_right (by simpa using below), List.length_reverse]
    by_cases top : height = fs.length
    · simp [top]
    · have : fs.reverse.length ≤ height := by simp; omega
      rw [if_neg top, List.getElem?_eq_none this]
      exact List.getElem?_eq_none (by simp; omega)

theorem Frame.height_lt {frames : List Frame} {height : Nat} {f : Frame}
    (h : Frame.ofHeight frames height = some f) : height < frames.length := by
  obtain ⟨lt, -⟩ := List.getElem?_eq_some_iff.1 h
  simpa using lt

theorem State.height_lt {s : State} {height : Nat} {name : String} {v : Variable}
    (h : s.bindingAt height name = some v) : height < s.frames.length := by
  obtain ⟨f, hf, -⟩ := Option.bind_eq_some_iff.1 h
  exact Frame.height_lt hf

/-! ## Assigning and declaring in a frame -/

theorem find?_putVariable_of_ne {v : Variable} {name : String} (h : v.name ≠ name) (vars : List Variable) :
    (Frame.putVariable v vars).find? (·.name = name) = vars.find? (·.name = name) := by
  induction vars with
  | nil => simp [Frame.putVariable, h]
  | cons w ws ih =>
    rw [Frame.putVariable]
    by_cases same : w.name = v.name
    · simp [same, h]
    · rw [if_neg same, List.find?_cons, List.find?_cons, ih]

/-- Assigning to a name gives its first variable the value and leaves the others alone. -/
theorem find?_assign (name other : String) (value : Value) (vars : List Variable) :
    (Frame.assign name value vars).find? (·.name = other) =
      if other = name then (vars.find? (·.name = other)).map fun v => { v with value := value }
      else vars.find? (·.name = other) := by
  induction vars with
  | nil => simp [Frame.assign]
  | cons w ws ih =>
    rw [Frame.assign]
    by_cases here : w.name = name
    · rw [if_pos here, List.find?_cons, List.find?_cons]
      by_cases same : other = name
      · simp [here, same]
      · simp [here, same, Ne.symm same]
    · rw [if_neg here, List.find?_cons, List.find?_cons, ih]
      by_cases same : other = name
      · have : w.name ≠ other := fun he => here (he.trans same)
        simp [this]
      · simp [same]

/-- Of all bindings, an assignment changes the innermost live one of its name. -/
theorem binding_assignIn (s : State) (name other : String) (value : Value) {frames : List Frame} {height : Nat}
    {v : Variable} (here : (Frame.ofHeight frames height).bind (·.binding? other) = some v) :
    ∃ v', (Frame.ofHeight (s.assignIn name value frames) height).bind (·.binding? other) = some v' ∧
      v'.shape = v.shape ∧
      (v'.value = v.value ∨ other = name ∧ frames.findSome? (s.liveIn · name) = some v) := by
  induction frames with
  | nil => cases here
  | cons f fs ih =>
    rw [Frame.ofHeight_cons] at here
    rw [State.assignIn, List.findSome?_cons]
    cases live : s.liveIn f name with
    | none =>
      -- The frame is passed over, so its own bindings stay and the others are those of the rest.
      rw [if_neg (by simp), Frame.ofHeight_cons, State.length_assignIn]
      by_cases top : height = fs.length
      · rw [if_pos top] at here ⊢
        exact ⟨v, here, rfl, .inl rfl⟩
      · rw [if_neg top] at here ⊢
        exact ih here
    | some w =>
      rw [if_pos (by simp), Frame.ofHeight_cons]
      by_cases top : height = fs.length
      · rw [if_pos top] at here ⊢
        change f.vars.find? (·.name = other) = some v at here
        change ∃ v', (Frame.assign name value f.vars).find? (·.name = other) = some v' ∧ _
        rw [find?_assign]
        by_cases same : other = name
        · rw [if_pos same, here]
          refine ⟨{ v with value := value }, rfl, rfl, .inr ⟨same, ?_⟩⟩
          obtain ⟨found, -⟩ := Option.filter_eq_some_iff.1 live
          rw [same] at here
          exact found.symm.trans here
        · rw [if_neg same]
          exact ⟨v, here, rfl, .inl rfl⟩
      · rw [if_neg top] at here ⊢
        exact ⟨v, here, rfl, .inl rfl⟩

/-! ## What a move does to the frames -/

/-- What a move can do to the frames. -/
inductive Reframes (s : State) (d : Deed) (t : State) : Prop
  | same (frames : t.frames = s.frames)
  | define (top : Frame) (rest : List Frame) (funcs : List FunctionRef) (before : s.frames = top :: rest)
    (after : t.frames = { top with funcs := funcs } :: rest)
  | declare (top : Frame) (rest : List Frame) (v : Variable) (before : s.frames = top :: rest)
    (after : t.frames = { top with vars := Frame.putVariable v top.vars } :: rest)
    (what : d = .declare rest.length v.name)
  | assign (name : String) (mode : AssignMode) (old : Variable) (value : Value)
    (found : s.lookupVariable name = some old) (admits : old.mutability.Admits mode)
    (after : t.frames = s.assignIn name value s.frames) (what : d = .assign name mode)
  | enter (top : Frame) (after : t.frames = top :: s.frames)
  | leave (top : Frame) (before : s.frames = top :: t.frames) (what : d = .leave t.frames.length)

section Moves

variable {host : Host} {m m' : Moment} {d : Deed}

theorem State.Balanced.frames_eq {s : State} (hs : s.Balanced) :
    ∃ top rest, s.frames = top :: rest ∧ rest.length = s.depth := by
  have height := hs.height
  cases hf : s.frames with
  | nil =>
    rw [hf] at height
    cases height
  | cons top rest =>
    rw [hf] at height
    exact ⟨top, rest, rfl, Nat.succ_inj.1 height⟩

theorem State.pop_eq_some {s u : State} (h : s.pop? = some u) :
    ∃ top, s.frames = top :: u.frames ∧ s.depth = u.depth + 1 ∧ u.maxDepth = s.maxDepth ∧
      u.watches = s.watches.filter fun w => w.height ≤ u.depth := by
  unfold State.pop? at h
  split at h
  · next depth top rest hdepth hframes =>
    cases h
    exact ⟨top, hframes, hdepth, rfl, rfl⟩
  · cases h

theorem frames_modifyTop {s : State} {top : Frame} {rest : List Frame} (h : s.frames = top :: rest)
    (f : Frame → Frame) : (s.modifyTop f).frames = f top :: rest := by
  unfold State.modifyTop
  rw [h]

theorem frames_declareHoisted {s : State} {top : Frame} {rest : List Frame} (h : s.frames = top :: rest)
    (name : String) (value : Value) (m : Mutability) (life : LifeTime) (line : Int) :
    ∃ v : Variable, v.name = name ∧ (s.declareHoisted name value m life line).frames =
      { top with vars := Frame.putVariable v top.vars } :: rest := by
  refine ⟨⟨name, value, m, life, line, true, life.window line s.now⟩, rfl, ?_⟩
  unfold State.declareHoisted
  cases value with
  | function f =>
    have noted : { s with hoistedFunctions := f.id :: s.hoistedFunctions }.frames = top :: rest := h
    exact frames_modifyTop noted _
  | _ => exact frames_modifyTop h _

theorem frames_bindParams {s : State} {top : Frame} {rest : List Frame} (h : s.frames = top :: rest)
    (params : List String) (args : List Value) : ∃ top', (bindParams params args s).frames = top' :: rest := by
  induction params generalizing args s top with
  | nil => exact ⟨top, h⟩
  | cons p ps ih =>
    cases args with
    | nil => exact ⟨top, h⟩
    | cons v vs => exact ih (frames_modifyTop h _) vs

theorem reframes_quiet (natives : ∀ f ∈ host.functions, f.KeepsBindings) {s t : State} (hs : s.Balanced)
    (h : Quiet host s t) : Reframes s d t := by
  cases h with
  | define fn =>
    obtain ⟨top, rest, before, -⟩ := hs.frames_eq
    exact .define top rest _ before (frames_modifyTop before _)
  | native f call known => exact .same (natives f known call s hs).1.frames
  | _ => exact .same rfl

/-- Everything a move can do to the frames. -/
theorem reframes_moves (natives : ∀ f ∈ host.functions, f.KeepsBindings) (balanced : m.state.Balanced)
    (h : Moves host m d m') : Reframes m.state d m'.state := by
  cases h with
  | other fs quiet => exact reframes_quiet natives balanced quiet
  | declare s fs h v =>
    obtain ⟨top, rest, before, length⟩ := balanced.frames_eq
    exact .declare top rest _ before (frames_modifyTop before _) (by rw [length])
  | hoist s fs h v =>
    obtain ⟨top, rest, before, length⟩ := balanced.frames_eq
    obtain ⟨w, named, after⟩ := frames_declareHoisted before h.header.name v h.header.mutability
      h.header.life h.line
    exact .declare top rest w before after (by rw [length, named])
  | imply s fs name v unknown =>
    obtain ⟨top, rest, before, length⟩ := balanced.frames_eq
    exact .declare top rest _ before (frames_modifyTop before _) (by rw [length])
  | assign s fs name mode old rhs new found permitted combined =>
    exact .assign name mode old new found (admits_of_permitted permitted) rfl rfl
  | @enter s u fs params args pushed =>
    obtain ⟨-, rfl⟩ := State.push_eq_ok pushed
    obtain ⟨top, after⟩ := frames_bindParams (s := { s with frames := {} :: s.frames, depth := s.depth + 1 })
      rfl params args
    exact .enter top after
  | @leave s u fs popped above =>
    obtain ⟨top, before, depth, -⟩ := State.pop_eq_some popped
    have height : s.frames.length = s.depth + 1 := balanced.height
    rw [before, List.length_cons, Nat.succ_inj] at height
    exact .leave top before (by rw [← height])
  | write s fs root ref key v access editable => exact .same rfl
  | watch s fs bs deps line distinct => exact .same rfl
  | fire s fs i w here idle changed => exact .same rfl
  | depend s fs f w deps here grows => exact .same rfl
  | rest s fs f => exact .same rfl

theorem balanced_quiet (natives : ∀ f ∈ host.functions, f.KeepsBindings) {s t : State} (hs : s.Balanced)
    (h : Quiet host s t) : t.Balanced := by
  cases h with
  | define fn => exact (State.sameStack_define hs fn).balanced hs
  | native f call known => exact (natives f known call s hs).1.sameStack.balanced hs
  | _ => exact ⟨hs.height, hs.limit⟩

theorem balanced_moves (natives : ∀ f ∈ host.functions, f.KeepsBindings) (balanced : m.state.Balanced)
    (h : Moves host m d m') : m'.state.Balanced := by
  cases h with
  | other fs quiet => exact balanced_quiet natives balanced quiet
  | declare s fs h v | imply s fs name v unknown =>
    exact ((State.sameStack_modifyTop balanced _).announce _).balanced balanced
  | hoist s fs h v =>
    exact ((State.sameStack_declareHoisted balanced _ _ _ _ _).announce _).balanced balanced
  | assign s fs name mode old rhs new found permitted combined =>
    exact (s.sameStack_assign name new).balanced balanced
  | enter fs params args pushed =>
    have entered := balanced.push pushed
    exact (State.sameStack_bindParams entered params args).balanced entered
  | @leave s u fs popped above =>
    obtain ⟨top, before, depth, limit, -⟩ := State.pop_eq_some popped
    have height : s.frames.length = s.depth + 1 := balanced.height
    have bounded : 0 < s.maxDepth → (s.depth : Int) ≤ s.maxDepth := balanced.limit
    rw [before, List.length_cons, Nat.succ_inj] at height
    refine ⟨height.trans depth, fun limited => ?_⟩
    rw [limit] at limited
    have := bounded limited
    change (u.depth : Int) ≤ u.maxDepth
    omega
  | write s fs root ref key v access editable => exact ⟨balanced.height, balanced.limit⟩
  | watch s fs bs deps line distinct => exact ⟨balanced.height, balanced.limit⟩
  | fire s fs i w here idle changed => exact ⟨balanced.height, balanced.limit⟩
  | depend s fs f w deps here grows => exact ⟨balanced.height, balanced.limit⟩
  | rest s fs f => exact ⟨balanced.height, balanced.limit⟩

/-- Functions are bound beside variables. -/
theorem bindingAt_of_funcs {s t : State} {top : Frame} {rest : List Frame} {funcs : List FunctionRef}
    (before : s.frames = top :: rest) (after : t.frames = { top with funcs := funcs } :: rest) (height : Nat)
    (name : String) : t.bindingAt height name = s.bindingAt height name := by
  unfold State.bindingAt
  rw [before, after, Frame.ofHeight_cons, Frame.ofHeight_cons]
  by_cases innermost : height = rest.length
  · rw [if_pos innermost, if_pos innermost]
    rfl
  · rw [if_neg innermost, if_neg innermost]

/-! ## Bindings through a journey -/

/-- Mutability holds from one state to another, given what was done in between: a binding that was
not redeclared in its own frame, and whose frame was not left, is the same but for its value, and the
value is the same unless one of the assignments that its mutability admits was made to its name. -/
def Respects (ds : List (Deed × Moment)) (s t : State) : Prop :=
  ∀ height name v, s.bindingAt height name = some v →
    (∀ e ∈ ds, e.1 ≠ .declare height name ∧ e.1 ≠ .leave height) →
    ∃ v', t.bindingAt height name = some v' ∧ v'.shape = v.shape ∧
      (v'.value = v.value ∨ ∃ e ∈ ds, ∃ mode, e.1 = .assign name mode ∧ v.mutability.Admits mode)

theorem Respects.refl (s : State) : Respects [] s s := fun _ _ v here _ => ⟨v, here, rfl, .inl rfl⟩

theorem Respects.of_bindingAt_eq {ds : List (Deed × Moment)} {s t u : State} (h : Respects ds s t)
    (same : ∀ height name, u.bindingAt height name = t.bindingAt height name) : Respects ds s u := by
  intro height name v here kept
  rw [same]
  exact h height name v here kept

theorem Respects.trans {ds es : List (Deed × Moment)} {s t u : State} (h : Respects ds s t)
    (k : Respects es t u) : Respects (ds ++ es) s u := by
  intro height name v here kept
  rw [List.forall_mem_append] at kept
  obtain ⟨v₁, there, shape, first⟩ := h height name v here kept.1
  obtain ⟨v₂, there', shape', later⟩ := k height name v₁ there kept.2
  have mutability : v₁.shape.mutability = v.shape.mutability := congrArg Variable.mutability shape
  refine ⟨v₂, there', shape'.trans shape, ?_⟩
  rcases later with same | ⟨e, he, mode, assigned, admits⟩
  · rcases first with same' | ⟨e, he, mode, assigned, admits⟩
    · exact .inl (same.trans same')
    · exact .inr ⟨e, List.mem_append_left es he, mode, assigned, admits⟩
  · exact .inr ⟨e, List.mem_append_right ds he, mode, assigned, mutability ▸ admits⟩

theorem respects_of_reframes {s : State} (h : Reframes s d m'.state) : Respects [(d, m')] s m'.state := by
  intro height name v here kept
  obtain ⟨kept, stays⟩ := List.forall_mem_singleton.1 kept
  have within := State.height_lt here
  cases h with
  | same frames =>
    unfold State.bindingAt at here ⊢
    rw [frames]
    exact ⟨v, here, rfl, .inl rfl⟩
  | define top rest funcs before after =>
    exact ⟨v, (bindingAt_of_funcs before after height name).trans here, rfl, .inl rfl⟩
  | declare top rest w before after what =>
    unfold State.bindingAt at here ⊢
    rw [before, Frame.ofHeight_cons] at here
    rw [after, Frame.ofHeight_cons]
    by_cases innermost : height = rest.length
    · have other : w.name ≠ name := by
        rintro rfl
        exact kept (by rw [what, innermost])
      rw [if_pos innermost] at here ⊢
      exact ⟨v, (find?_putVariable_of_ne other top.vars).trans here, rfl, .inl rfl⟩
    · rw [if_neg innermost] at here ⊢
      exact ⟨v, here, rfl, .inl rfl⟩
  | assign other mode old value found admits after what =>
    unfold State.bindingAt at here ⊢
    rw [after]
    obtain ⟨v', there, shape, changed⟩ := binding_assignIn s other name value here
    refine ⟨v', there, shape, ?_⟩
    rcases changed with same | ⟨rfl, first⟩
    · exact .inl same
    · have : old = v := Option.some_inj.1 (found.symm.trans first)
      exact .inr ⟨_, List.mem_singleton_self _, mode, what, this ▸ admits⟩
  | enter top after =>
    unfold State.bindingAt at here ⊢
    rw [after, Frame.ofHeight_cons, if_neg (by omega)]
    exact ⟨v, here, rfl, .inl rfl⟩
  | leave top before what =>
    unfold State.bindingAt at here ⊢
    rw [before, Frame.ofHeight_cons] at here
    have below : height ≠ m'.state.frames.length := by
      rintro rfl
      exact stays what
    rw [if_neg below] at here
    exact ⟨v, here, rfl, .inl rfl⟩

/-- Mutability holds over whole journeys. -/
theorem respects_journey (natives : ∀ f ∈ host.functions, f.KeepsBindings) {ds : List (Deed × Moment)}
    (h : Journey host m ds m') (balanced : m.state.Balanced) : Respects ds m.state m'.state := by
  induction h with
  | stay m => exact .refl m.state
  | move first _ ih =>
    have step := respects_of_reframes (reframes_moves natives balanced first)
    exact step.trans (ih (balanced_moves natives balanced first))

end Moves

end Gapscript
