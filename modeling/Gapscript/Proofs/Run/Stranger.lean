import Gapscript.Proofs.Run.Contract
import Gapscript.Proofs.Run.Stock

/-!
# Names that a text does not mention

A `Stranger` is a name that does not occur in a text. What a program with this text can get hold of
comes from `Stranger.source`: names and bodies are pieces of the text, functions of the host are among
the first ones, and objects were made after it started. `k.Sourced s` says so of all that is bound,
watched or kept in a state; what a program does to a state keeps it, and what it reads from the state
comes from the source again.
-/

namespace Gapscript

open Cursor Reading

/-! ## Strangers -/

/-- A name that does not occur in a text. `base` is the first object that a program with this text can
have made, and `slots` the number of functions of the host that it can call. -/
structure Stranger where
  text : Text
  name : String
  base : Nat
  slots : Nat
  absent : ¬ name.toList <:+: text

namespace Stranger

variable (k : Stranger)

/-- What can be called: pieces of the text with parameters from it, and some functions of the host. -/
def Callable (fn : Function) : Prop :=
  match fn.body with
  | .script text _ _ => (∀ p ∈ fn.params, p.toList <:+: k.text) ∧ text <:+: k.text
  | .native slot _ => slot < k.slots

/-- What a program with the text can get hold of. -/
def source : Source where
  Occurs name := name.toList <:+: k.text
  Piece c := c.rest <:+: k.text
  Holds
    | .object ref => k.base ≤ ref
    | .function fn => k.Callable fn.code
    | _ => True

variable {k : Stranger}

theorem ne_of_occurs {name : String} (h : k.source.Occurs name) : name ≠ k.name := by
  rintro rfl
  exact k.absent h

theorem covers_of_piece {c : Cursor} (h : k.source.Piece c) : k.source.Covers c := by
  refine ⟨fun named => named.trans h, fun {d} inside => ?_⟩
  obtain ⟨p, q, hc, -⟩ := inside
  have piece : d.rest <:+: c.rest := ⟨p, q, hc.symm⟩
  exact piece.trans h

theorem covers_guard {g : Guard} (h : k.source.Occurs (String.ofList g.text)) :
    k.source.Covers ⟨g.text, g.pos⟩ := by
  refine covers_of_piece ?_
  change (String.ofList g.text).toList <:+: k.text at h
  rwa [String.toList_ofList] at h

theorem holds_of_plain {v : Value} (h : v.isReference = false) : k.source.Holds v := by
  cases v with
  | object ref | function fn => cases h
  | _ => trivial

theorem callable_of_code {fn : Function} (h : k.source.Code fn) : k.Callable fn := by
  obtain ⟨params, text, pos, block, hbody, piece⟩ := h
  unfold Callable
  rw [hbody]
  exact ⟨params, piece⟩

/-! ## Values -/

theorem holds_binary {heap : Heap} {op : BinaryOp} {a b v : Value} (h : heap.binary op a b = .ok v)
    (ha : k.source.Holds a) (hb : k.source.Holds b) : k.source.Holds v := holds_of_binary holds_of_plain h ha hb

theorem holds_combine {mode : AssignMode} {heap : Heap} {old rhs v : Value}
    (h : mode.combine heap old rhs = .ok v) (hold : k.source.Holds old) (hrhs : k.source.Holds rhs) :
    k.source.Holds v := holds_of_combine holds_of_plain h hold hrhs

/-! ## Objects -/

variable (k) in
/-- Every property of the object holds something that a program with the text can get hold of. -/
def Filled (o : Object) : Prop := ∀ e ∈ o.entries, k.source.Holds e.2

theorem filled_empty (isArray : Bool) : k.Filled { isArray := isArray } := Object.all_empty isArray

theorem Filled.fill {o : Object} (h : k.Filled o) (position : Nat) {vs : List Value}
    (hvs : ∀ v ∈ vs, k.source.Holds v) : k.Filled (o.fill position vs) := Object.All.fill h position hvs

theorem Filled.setAll {o : Object} (h : k.Filled o) {es : List (String × Value)}
    (hes : ∀ e ∈ es, k.source.Holds e.2) : k.Filled (es.foldl (fun o (key, v) => o.set key v) o) :=
  Object.All.setAll h hes

variable (k) in
/-- The objects from `base` on are filled from the text. -/
structure HeapSourced (heap : Heap) : Prop where
  room : k.base ≤ heap.objects.size
  filled : ∀ ref o, k.base ≤ ref → heap.objects[ref]? = some o → k.Filled o

namespace HeapSourced

variable {heap : Heap}

theorem all (h : k.HeapSourced heap) : heap.All k.source.Holds := h.filled

theorem alloc (h : k.HeapSourced heap) {o : Object} (ho : k.Filled o) : k.HeapSourced (heap.alloc o).2 := by
  refine ⟨?_, h.all.alloc ho⟩
  change k.base ≤ (heap.objects.push o).size
  rw [Array.size_push]
  exact Nat.le_succ_of_le h.room

theorem setProperty (h : k.HeapSourced heap) (ref : Nat) (key : String) {v : Value}
    (hv : k.source.Holds v) : k.HeapSourced (heap.setProperty ref key v) := by
  refine ⟨?_, h.all.setProperty ref key hv⟩
  change k.base ≤ (heap.objects.modify ref (·.set key v)).size
  rw [Array.size_modify]
  exact h.room

theorem lookup (h : k.HeapSourced heap) {ref : Nat} (href : k.base ≤ ref) (key : String) :
    k.source.Holds (heap.lookup ref key) := h.all.lookup holds_of_plain href key

theorem readProperty (h : k.HeapSourced heap) {base v : Value} {key : String}
    (hbase : k.source.Holds base) (hv : heap.readProperty base key = .ok v) : k.source.Holds v :=
  h.all.readProperty holds_of_plain hbase hv

end HeapSourced

/-! ## States -/

variable (k) in
/-- Everything that the frame binds comes from the text. -/
structure FrameSourced (f : Frame) : Prop where
  vars : ∀ v ∈ f.vars, k.source.Holds v.value
  funcs : ∀ fn ∈ f.funcs, k.source.Holds (.function fn)

variable (k) in
/-- The watch was declared in the text. -/
structure WatchSourced (w : Watch) : Prop where
  branches : ∀ b ∈ w.branches, b.Sourced k.source
  deps : ∀ name ∈ w.deps, k.source.Occurs name

variable (k) in
/-- Everything that the state binds, watches or keeps comes from the text. -/
structure Sourced (s : State) : Prop where
  occupied : s.frames ≠ []
  frames : ∀ f ∈ s.frames, k.FrameSourced f
  heap : k.HeapSourced s.heap
  watches : ∀ w ∈ s.watches, k.WatchSourced w

theorem frameSourced_empty : k.FrameSourced {} := ⟨(fun _ hv => nomatch hv), fun _ hf => nomatch hf⟩

namespace Sourced

variable {s t : State}

theorem stocked (h : k.Sourced s) : s.Stocked k.source.Holds k.WatchSourced where
  frames f hf := ⟨(h.frames f hf).vars, (h.frames f hf).funcs⟩
  heap := h.heap.all
  fresh _ new := Nat.le_trans h.heap.room new
  watches := h.watches

theorem of_stocked (h : s.Stocked k.source.Holds k.WatchSourced) (occupied : s.frames ≠ []) : k.Sourced s where
  occupied := occupied
  frames f hf := ⟨(h.frames f hf).vars, (h.frames f hf).funcs⟩
  heap := ⟨h.fresh _ (Nat.le_refl _), h.heap⟩
  watches := h.watches

/-- What else the state holds does not matter. -/
theorem congr (h : k.Sourced s) (frames : t.frames = s.frames) (heap : t.heap = s.heap)
    (watches : t.watches = s.watches) : k.Sourced t :=
  of_stocked (h.stocked.congr frames heap watches) (frames ▸ h.occupied)

theorem declare (h : k.Sourced s) (name : String) {v : Value} (hv : k.source.Holds v) (m : Mutability)
    (life : LifeTime) : k.Sourced (s.declare name v m life) :=
  of_stocked (h.stocked.declare name hv m life) (s.occupied_modifyTop _)

theorem declareHoisted (h : k.Sourced s) (name : String) {v : Value} (hv : k.source.Holds v) (m : Mutability)
    (life : LifeTime) (line : Int) : k.Sourced (s.declareHoisted name v m life line) := by
  refine of_stocked (h.stocked.declareHoisted name hv m life line) ?_
  cases v with
  | function f => exact State.occupied_modifyTop _ _
  | _ => exact State.occupied_modifyTop _ _

theorem define (h : k.Sourced s) {fn : FunctionRef} (hfn : k.source.Holds (.function fn)) :
    k.Sourced (s.define fn) :=
  of_stocked (h.stocked.define hfn) (s.occupied_modifyTop _)

theorem assign (h : k.Sourced s) (name : String) {v : Value} (hv : k.source.Holds v) :
    k.Sourced (s.assign name v) := by
  refine of_stocked (h.stocked.assign name hv) fun none => h.occupied ?_
  change s.assignIn name v s.frames = [] at none
  cases hf : s.frames with
  | nil => rfl
  | cons f fs =>
    rw [hf, State.assignIn] at none
    split at none
    · cases none
    · cases none

theorem addWatch (h : k.Sourced s) {bs : List Branch} {deps : List String}
    (hbs : ∀ b ∈ bs, b.Sourced k.source) (hdeps : ∀ name ∈ deps, k.source.Occurs name) (line : Int) :
    k.Sourced (s.addWatch bs deps line) :=
  of_stocked (h.stocked.addWatch fun _ => ⟨hbs, hdeps⟩) h.occupied

theorem modifyWatch (h : k.Sourced s) (i : Nat) {g : Watch → Watch}
    (hg : ∀ w, k.WatchSourced w → k.WatchSourced (g w)) : k.Sourced (s.modifyWatch i g) :=
  of_stocked (h.stocked.modifyWatch i hg) h.occupied

theorem lookupVariable (h : k.Sourced s) {name : String} {v : Variable} (hv : s.lookupVariable name = some v) :
    k.source.Holds v.value := h.stocked.lookupVariable hv

theorem lookupCallable (h : k.Sourced s) {strict : Bool} {name : String} {fn : FunctionRef}
    (hfn : s.lookupCallable strict name = some fn) : k.source.Holds (.function fn) :=
  h.stocked.lookupCallable hfn

end Sourced

/-- Without the stranger, names mean the same to the text. -/
theorem accord_names {s : State} (h : k.Sourced (s.without k.name)) :
    (s.without k.name).names.Accord k.source s.names where
  value named := by
    change ((s.without k.name).lookupVariable _).map _ = (s.lookupVariable _).map _
    rw [State.lookupVariable_without (ne_of_occurs named)]
  callee named := State.lookupCallable_without (ne_of_occurs named) _ s
  holds hv := by
    obtain ⟨v, found, rfl⟩ := Option.map_eq_some_iff.1 hv
    exact h.lookupVariable found
  callable hfn := h.lookupCallable hfn
  plain := holds_of_plain

end Stranger

end Gapscript
