import Mathlib.Data.List.Forall2
import Gapscript.Proofs.Reading.Extent
import Gapscript.Proofs.Reading.Shifted
import Gapscript.Proofs.Value.Shift
import Gapscript.Proofs.Run.Forgetting
import Gapscript.Proofs.Run.Frames

/-!
# States beside each other

Two runs of one text may differ in where the text stands and in how many frames they may nest. A
`Bridge` says by how much: what is bound in the second state is what is bound in the first one,
shifted, and the limits of both are related. `B.Beside k s t` relates two states, `k` frames above
the global one, and says of the first that what it holds was written in pieces of the text. What a
program does to both keeps them beside each other, and what it looks up in both is the same, shifted.

Windows are not simply shifted, since lines are added as words and a bound of zero is none: what
`B.Windows` relates opens and closes with the lines of the text.
-/

namespace Gapscript

/-- What relates two runs of one text: how the text is shifted, which pieces it has and on which
lines they stand, which windows open and close alike, how deep both start, which limits may differ and
which frames can be entered under the first of them, and the failures after which the second run may go
its own way. -/
structure Bridge where
  shift : Shift
  base : Nat
  Piece : Cursor → Prop
  Line : Int → Prop
  Windows : Window → Window → Prop
  Limits : Int → Int → Prop
  Deep : Nat → Prop
  Excused : Error → Prop
  includes : ∀ {c d}, Piece c → c.Includes d → Piece d
  shorter : ∀ {t c}, Piece c → t.length ≤ c.rest.length → Piece ⟨t, c.pos⟩
  line : ∀ {c}, Piece c → Line c.pos.line
  expired : ∀ {w w' line}, Windows w w' → Line line →
    ∀ now, w'.expired (line + shift.lines) now = w.expired line now
  window : ∀ {life : LifeTime} {line}, life.Fits → Line line →
    ∀ now, Windows (life.window line now) (life.window (line + shift.lines) now)
  visible : ∀ {n line}, n < 0 → (LifeTime.lines n).Fits → Line line →
    Number.word (line + shift.lines + n) = Number.word (line + n) + shift.lines
  enters : ∀ {limit limit'} {k : Nat}, Limits limit limit' → ¬ (limit > 0 ∧ (k : Int) ≥ limit) →
    ¬ (limit' > 0 ∧ (k : Int) ≥ limit') ∧ Deep (k + 1)
  refuses : ∀ {limit limit'} {k : Nat}, Limits limit limit' → limit > 0 ∧ (k : Int) ≥ limit →
    limit' = limit ∨ Excused (.ofFault (.callDepth limit))
  located : ∀ {e} (pos : Option Position), Excused e → Excused (e.withPosition pos)

namespace Shift

/-- The same message, or one that names a line, shifted. -/
inductive Said (d : Shift) : String → String → Prop
  | same (message : String) : Said d message message
  | line (before after : String) (line : Int) :
    Said d (before ++ toString line ++ after) (before ++ toString (line + d.lines) ++ after)

/-- The same record about a place and perhaps a line, shifted. -/
structure Recorded (d : Shift) (r r' : Record) : Prop where
  level : r'.level = r.level
  category : r'.category = r.category
  message : d.Said r.message r'.message
  pos : r'.pos = r.pos.map d.position
  context : r'.context = r.context

/-- A watch, shifted. -/
def watch (d : Shift) (w : Watch) : Watch :=
  { w with
    branches := w.branches.map d.branch
    snapshot := w.snapshot.map d.value
    line := w.line + d.lines }

end Shift

namespace Bridge

variable (B : Bridge)

/-- The function was written in a piece of the text, or belongs to the host. -/
def Written (f : Function) : Prop :=
  match f.body with
  | .script text pos _ => B.Piece ⟨text, pos⟩
  | .native .. => True

/-- What a program can get hold of: functions were written in the text. -/
def source : Source where
  Occurs _ := True
  Piece := B.Piece
  Holds
    | .function fn => B.Written fn.code
    | _ => True

/-- The variable is the other one, shifted. -/
structure Bound (v v' : Variable) : Prop where
  name : v'.name = v.name
  value : v'.value = B.shift.value v.value
  mutability : v'.mutability = v.mutability
  life : v'.life = v.life
  line : v'.line = v.line + B.shift.lines
  hoisted : v'.hoisted = v.hoisted
  window : B.Windows v.window v'.window
  holds : B.source.Holds v.value

/-- The frame binds what the other one does, shifted. -/
structure Framed (f f' : Frame) : Prop where
  vars : List.Forall₂ B.Bound f.vars f'.vars
  funcs : f'.funcs = f.funcs.map B.shift.ref
  holds : ∀ fn ∈ f.funcs, B.source.Holds (.function fn)

/-- The bodies and the guards of the watch stand in the text. -/
structure Watched (w : Watch) : Prop where
  bodies : ∀ b ∈ w.branches, B.Piece b.body
  guards : ∀ b ∈ w.branches, ∀ g, b.guard = some g → B.Piece ⟨g.text, g.pos⟩

/-- The state is `k` frames deep, and the frames entered since the start can be left. -/
structure Tall (k : Nat) (s : State) : Prop where
  depth : s.depth = k
  above : B.base ≤ k
  height : k ≤ B.base + s.frames.length

/-- The second state is the first one, shifted; both are `k` frames deep. -/
structure Beside (k : Nat) (s s' : State) : Prop extends B.Tall k s where
  frames : List.Forall₂ B.Framed s.frames s'.frames
  depth' : s'.depth = k
  limits : B.Limits s.maxDepth s'.maxDepth
  line : s'.line = s.line + B.shift.lines
  here : B.Line s.line
  now : s'.now = s.now
  ticking : s'.ticking = s.ticking
  watches : s'.watches = s.watches.map B.shift.watch
  watched : ∀ w ∈ s.watches, B.Watched w
  heap : s'.heap = B.shift.heap s.heap
  filled : s.heap.All B.source.Holds
  identities : s'.identities = s.identities
  hoistedFunctions : s'.hoistedFunctions = s.hoistedFunctions
  produced : s'.produced = s.produced.map B.shift.value
  output : s'.output = s.output
  records : List.Forall₂ B.shift.Recorded s.records.toList s'.records.toList

variable {B} {k : Nat} {s s' : State}

/-! ## What comes from the text -/

theorem scalars : Value.Scalars B.source.Holds := by
  intro v h
  cases v with
  | function f => cases h
  | _ => trivial

theorem covers_of_piece {c : Cursor} (h : B.Piece c) : B.source.Covers c :=
  ⟨fun _ => trivial, fun inside => B.includes h inside⟩

theorem written_of_code {f : Function} (h : B.source.Code f) : B.Written f := by
  obtain ⟨-, text, pos, block, hbody, piece⟩ := h
  unfold Written
  rw [hbody]
  exact piece

/-! ## Frames -/

theorem rel_cases {α β : Type} {R : α → β → Prop} {o : Option α} {o' : Option β} (h : Option.Rel R o o') :
    (o = none ∧ o' = none) ∨ ∃ a b, o = some a ∧ o' = some b ∧ R a b := by
  cases h with
  | none => exact .inl ⟨rfl, rfl⟩
  | some related => exact .inr ⟨_, _, rfl, rfl, related⟩

theorem rel_find? {α β : Type} {R : α → β → Prop} {p : α → Bool} {q : β → Bool}
    (same : ∀ a b, R a b → q b = p a) {l : List α} {l' : List β} (h : List.Forall₂ R l l') :
    Option.Rel R (l.find? p) (l'.find? q) := by
  induction h with
  | nil => exact .none
  | cons first _ ih =>
    rw [List.find?_cons, List.find?_cons, same _ _ first]
    split
    · exact .some first
    · exact ih

theorem Framed.binding? {f f' : Frame} (h : B.Framed f f') (name : String) :
    Option.Rel B.Bound (f.binding? name) (f'.binding? name) :=
  rel_find? (fun v v' bound => by rw [bound.name]) h.vars

theorem Framed.function? {f f' : Frame} (h : B.Framed f f') (name : String) :
    f'.function? name = (f.function? name).map B.shift.ref := by
  unfold Frame.function?
  rw [h.funcs, List.find?_map]
  congr 2
  funext fn
  change decide ((B.shift.function fn.code).name = name) = _
  rw [Shift.name_function]

theorem framed_empty : B.Framed {} {} := ⟨.nil, rfl, fun _ hf => nomatch hf⟩

theorem Framed.putVariable {f f' : Frame} (h : B.Framed f f') {v v' : Variable} (bound : B.Bound v v') :
    B.Framed { f with vars := Frame.putVariable v f.vars } { f' with vars := Frame.putVariable v' f'.vars } := by
  have put {ws ws' : List Variable} (hws : List.Forall₂ B.Bound ws ws') :
      List.Forall₂ B.Bound (Frame.putVariable v ws) (Frame.putVariable v' ws') := by
    induction hws with
    | nil => exact .cons bound .nil
    | cons first rest ih =>
      rw [Frame.putVariable, Frame.putVariable, first.name, bound.name]
      split
      · exact .cons bound rest
      · exact .cons first ih
  exact ⟨put h.vars, h.funcs, h.holds⟩

theorem Framed.assign {f f' : Frame} (h : B.Framed f f') (name : String) {v : Value}
    (hv : B.source.Holds v) :
    B.Framed { f with vars := Frame.assign name v f.vars }
      { f' with vars := Frame.assign name (B.shift.value v) f'.vars } := by
  have put {ws ws' : List Variable} (hws : List.Forall₂ B.Bound ws ws') :
      List.Forall₂ B.Bound (Frame.assign name v ws) (Frame.assign name (B.shift.value v) ws') := by
    induction hws with
    | nil => exact .nil
    | cons first rest ih =>
      rw [Frame.assign, Frame.assign, first.name]
      split
      · obtain ⟨-, -, mutability, life, line, hoisted, window, -⟩ := first
        exact .cons ⟨rfl, rfl, mutability, life, line, hoisted, window, hv⟩ rest
      · exact .cons first ih
  exact ⟨put h.vars, h.funcs, h.holds⟩

theorem Framed.putFunction {f f' : Frame} (h : B.Framed f f') {fn : FunctionRef}
    (hfn : B.source.Holds (.function fn)) :
    B.Framed { f with funcs := Frame.putFunction fn f.funcs }
      { f' with funcs := Frame.putFunction (B.shift.ref fn) f'.funcs } := by
  refine ⟨h.vars, ?_, fun g hg => ?_⟩
  · dsimp only
    rw [h.funcs]
    induction f.funcs with
    | nil => rfl
    | cons g gs ih =>
      have same (fn : FunctionRef) : (B.shift.ref fn).code.name = fn.code.name := Shift.name_function fn.code
      rw [List.map_cons, Frame.putFunction, Frame.putFunction, same, same, ih]
      split <;> rfl
  · dsimp only at hg
    rw [Frame.putFunction_eq] at hg
    rcases Frame.mem_putBy hg with rfl | hg
    · exact hfn
    · exact h.holds g hg

/-! ## Looking up -/

namespace Beside

theorem alive (h : B.Beside k s s') {v v' : Variable} (bound : B.Bound v v') : s'.alive v' = s.alive v := by
  unfold State.alive
  rw [h.line, h.now, B.expired bound.window h.here]

theorem liveIn (h : B.Beside k s s') {f f' : Frame} (framed : B.Framed f f') (name : String) :
    Option.Rel B.Bound (s.liveIn f name) (s'.liveIn f' name) := by
  unfold State.liveIn
  obtain ⟨hf, hf'⟩ | ⟨v, v', hf, hf', bound⟩ := rel_cases (framed.binding? name)
  · rw [hf, hf']
    exact .none
  · rw [hf, hf', Option.filter_some, Option.filter_some, h.alive bound]
    split
    · exact .some bound
    · exact .none

theorem lookupVariable (h : B.Beside k s s') (name : String) :
    Option.Rel B.Bound (s.lookupVariable name) (s'.lookupVariable name) := by
  have all {fs fs' : List Frame} (hfs : List.Forall₂ B.Framed fs fs') :
      Option.Rel B.Bound (fs.findSome? fun f => s.liveIn f name) (fs'.findSome? fun f => s'.liveIn f name) := by
    induction hfs with
    | nil => exact .none
    | cons first _ ih =>
      rw [List.findSome?_cons, List.findSome?_cons]
      obtain ⟨hv, hv'⟩ | ⟨v, v', hv, hv', bound⟩ := rel_cases (h.liveIn first name)
      · rw [hv, hv']
        exact ih
      · rw [hv, hv']
        exact .some bound
  exact all h.frames

theorem lookupCallable (h : B.Beside k s s') (strict : Bool) (name : String) :
    s'.lookupCallable strict name = (s.lookupCallable strict name).map B.shift.ref ∧
      ∀ fn, s.lookupCallable strict name = some fn → B.source.Holds (.function fn) := by
  have all {fs fs' : List Frame} (hfs : List.Forall₂ B.Framed fs fs') :
      s'.callableIn strict name fs' = (s.callableIn strict name fs).map B.shift.ref ∧
        ∀ fn, s.callableIn strict name fs = some fn → B.source.Holds (.function fn) := by
    induction hfs with
    | nil =>
      refine ⟨rfl, ?_⟩
      rintro fn ⟨⟩
    | @cons f f' fs fs' first _ ih =>
      have later : (f'.function? name).orElse (fun _ => s'.callableIn strict name fs') =
            ((f.function? name).orElse fun _ => s.callableIn strict name fs).map B.shift.ref ∧
          ∀ fn, (f.function? name).orElse (fun _ => s.callableIn strict name fs) = some fn →
            B.source.Holds (.function fn) := by
        rw [first.function?]
        cases hf : f.function? name with
        | none => exact ih
        | some g =>
          refine ⟨rfl, ?_⟩
          rintro fn ⟨⟩
          exact first.holds g (List.mem_of_find?_eq_some hf)
      rw [State.callableIn, State.callableIn]
      obtain ⟨hv, hv'⟩ | ⟨v, v', hv, hv', bound⟩ := rel_cases (h.liveIn first name)
      · rw [hv, hv']
        exact later
      · rw [hv, hv']
        obtain ⟨name, value, mutability, life, line, hoisted, window⟩ := v
        obtain ⟨name', value', mutability', life', line', hoisted', window'⟩ := v'
        obtain rfl : value' = B.shift.value value := bound.value
        cases value with
        | function g =>
          refine ⟨rfl, ?_⟩
          rintro fn ⟨⟩
          exact bound.holds
        | _ =>
          dsimp only [Shift.value]
          split
          · refine ⟨rfl, ?_⟩
            rintro fn ⟨⟩
          · exact later
  exact all h.frames

/-- Names stand for the same, shifted. -/
theorem names (h : B.Beside k s s') : s'.names = B.shift.names s.names := by
  unfold State.names Shift.names
  congr 1
  · funext name
    dsimp only
    obtain ⟨hv, hv'⟩ | ⟨v, v', hv, hv', bound⟩ := rel_cases (h.lookupVariable name)
    · rw [hv, hv']
      rfl
    · rw [hv, hv']
      exact congrArg some bound.value
  · funext strict name
    exact (h.lookupCallable strict name).1

/-- Names stand for what was written in the text. -/
theorem accord (h : B.Beside k s s') : s.names.Accord B.source s.names where
  value _ := rfl
  callee _ := rfl
  holds {name v} hv := by
    change (s.lookupVariable name).map (·.value) = some v at hv
    obtain ⟨hl, -⟩ | ⟨w, _, hl, -, bound⟩ := rel_cases (h.lookupVariable name)
    · rw [hl] at hv
      cases hv
    · rw [hl] at hv
      cases hv
      exact Bound.holds bound
  callable {strict name} := (h.lookupCallable strict name).2 _
  plain := scalars

theorem valueOf (h : B.Beside k s s') (name : String) : s'.valueOf name = B.shift.value (s.valueOf name) := by
  unfold State.valueOf
  obtain ⟨hv, hv'⟩ | ⟨v, v', hv, hv', bound⟩ := rel_cases (h.lookupVariable name)
  · rw [hv, hv']
    rfl
  · rw [hv, hv']
    exact bound.value

theorem valuesOf (h : B.Beside k s s') (names : List String) :
    s'.valuesOf names = (s.valuesOf names).map B.shift.value := by
  unfold State.valuesOf
  rw [List.map_map]
  exact List.map_congr_left fun name _ => h.valueOf name

/-! ## Changes -/

theorem setLine (h : B.Beside k s s') {line : Int} (hl : B.Line line) :
    B.Beside k { s with line := line } { s' with line := line + B.shift.lines } :=
  { h with line := rfl, here := hl }

theorem record (h : B.Beside k s s') {r r' : Record} (hr : B.shift.Recorded r r') :
    B.Beside k (s.record r) (s'.record r') := by
  refine { h with records := ?_ }
  change List.Forall₂ _ (s.records.push r).toList (s'.records.push r').toList
  rw [Array.toList_push, Array.toList_push]
  exact List.rel_append h.records (.cons hr .nil)

theorem modifyTop (h : B.Beside k s s') {g g' : Frame → Frame}
    (hg : ∀ f f', B.Framed f f' → B.Framed (g f) (g' f')) : B.Beside k (s.modifyTop g) (s'.modifyTop g') := by
  have frames := h.frames
  unfold State.modifyTop
  cases hf : s.frames with
  | nil =>
    rw [hf, List.forall₂_nil_left_iff] at frames
    rw [frames]
    have height := h.height
    rw [hf] at height
    exact { h with
      frames := .cons (hg _ _ framed_empty) .nil
      height := Nat.le_succ_of_le height }
  | cons f fs =>
    rw [hf, List.forall₂_cons_left_iff] at frames
    obtain ⟨f', fs', first, rest, hf'⟩ := frames
    rw [hf']
    have height := h.height
    rw [hf] at height
    exact { h with frames := .cons (hg f f' first) rest, height := height }

theorem declare (h : B.Beside k s s') (name : String) {v : Value} (hv : B.source.Holds v) (m : Mutability)
    {life : LifeTime} (fits : life.Fits) :
    B.Beside k (s.declare name v m life) (s'.declare name (B.shift.value v) m life) := by
  refine h.modifyTop fun f f' framed => framed.putVariable ⟨rfl, rfl, rfl, rfl, h.line, rfl, ?_, hv⟩
  dsimp only
  rw [h.line, h.now]
  exact B.window fits h.here s.now

theorem declareHoisted (h : B.Beside k s s') (name : String) {v : Value} (hv : B.source.Holds v)
    (m : Mutability) {life : LifeTime} (fits : life.Fits) {line : Int} (hl : B.Line line) :
    B.Beside k (s.declareHoisted name v m life line)
      (s'.declareHoisted name (B.shift.value v) m life (line + B.shift.lines)) := by
  have bound {t t' : State} (ht : B.Beside k t t') := ht.modifyTop fun f f' framed => by
    have same : B.Bound ⟨name, v, m, life, line, true, life.window line t.now⟩
        ⟨name, B.shift.value v, m, life, line + B.shift.lines, true,
          life.window (line + B.shift.lines) t'.now⟩ :=
      ⟨rfl, rfl, rfl, rfl, rfl, rfl, ht.now ▸ B.window fits hl t.now, hv⟩
    exact framed.putVariable same
  cases v with
  | function f =>
    have noted : B.Beside k { s with hoistedFunctions := f.id :: s.hoistedFunctions }
        { s' with hoistedFunctions := f.id :: s'.hoistedFunctions } :=
      { h with hoistedFunctions := congrArg (f.id :: ·) h.hoistedFunctions }
    exact bound noted
  | _ => exact bound h

theorem define (h : B.Beside k s s') {fn : FunctionRef} (hfn : B.source.Holds (.function fn)) :
    B.Beside k (s.define fn) (s'.define (B.shift.ref fn)) :=
  h.modifyTop fun _ _ framed => framed.putFunction hfn

theorem newFunction (h : B.Beside k s s') (fn : Function) :
    (s'.newFunction (B.shift.function fn)).1 = B.shift.ref (s.newFunction fn).1 ∧
      B.Beside k (s.newFunction fn).2 (s'.newFunction (B.shift.function fn)).2 := by
  refine ⟨?_, { h with identities := congrArg (· + 1) h.identities }⟩
  change FunctionRef.mk s'.identities _ = ⟨s.identities, _⟩
  rw [h.identities]
  rfl

theorem assign (h : B.Beside k s s') (name : String) {v : Value} (hv : B.source.Holds v) :
    B.Beside k (s.assign name v) (s'.assign name (B.shift.value v)) := by
  have all {fs fs' : List Frame} (hfs : List.Forall₂ B.Framed fs fs') :
      List.Forall₂ B.Framed (s.assignIn name v fs) (s'.assignIn name (B.shift.value v) fs') := by
    induction hfs with
    | nil => exact .nil
    | @cons f f' fs fs' first rest ih =>
      have live : (s'.liveIn f' name).isSome = (s.liveIn f name).isSome := by
        obtain ⟨hv, hv'⟩ | ⟨v, v', hv, hv', -⟩ := rel_cases (h.liveIn first name)
        · rw [hv, hv']
        · rw [hv, hv']
          rfl
      rw [State.assignIn, State.assignIn, live]
      split
      · exact .cons (first.assign name hv) rest
      · exact .cons first ih
  have height : k ≤ B.base + (s.assignIn name v s.frames).length := by
    rw [State.length_assignIn]
    exact h.height
  exact { h with frames := all h.frames, height := height }

theorem newObject (h : B.Beside k s s') {o : Object} (ho : o.All B.source.Holds) :
    (s'.newObject (B.shift.object o)).1 = B.shift.value (s.newObject o).1 ∧
      B.Beside k (s.newObject o).2 (s'.newObject (B.shift.object o)).2 := by
  have made := Shift.alloc_heap (d := B.shift) s.heap o
  unfold State.newObject
  rw [h.heap, made]
  exact ⟨rfl, { h with heap := rfl, filled := h.filled.alloc ho }⟩

theorem setProperty (h : B.Beside k s s') (ref : Nat) (key : String) {v : Value} (hv : B.source.Holds v) :
    B.Beside k { s with heap := s.heap.setProperty ref key v }
      { s' with heap := s'.heap.setProperty ref key (B.shift.value v) } := by
  refine { h with heap := ?_, filled := h.filled.setProperty ref key hv }
  dsimp only
  rw [h.heap]
  exact Shift.setProperty_heap s.heap ref key v

theorem addWatch (h : B.Beside k s s') {bs : List Branch} (bodies : ∀ b ∈ bs, B.Piece b.body)
    (guards : ∀ b ∈ bs, ∀ g, b.guard = some g → B.Piece ⟨g.text, g.pos⟩) (deps : List String) (line : Int) :
    B.Beside k (s.addWatch bs deps line)
      (s'.addWatch (bs.map B.shift.branch) deps (line + B.shift.lines)) := by
  refine { h with watches := ?_, watched := fun w hw => ?_ }
  · change s'.watches ++ [_] = (s.watches ++ [_]).map B.shift.watch
    rw [h.watches, h.valuesOf, h.depth', List.map_append]
    unfold Shift.watch
    rw [List.map_singleton, h.depth]
  · rcases List.mem_append.1 hw with hw | hw
    · exact h.watched w hw
    · cases List.mem_singleton.1 hw
      exact ⟨bodies, guards⟩

theorem modifyWatch (h : B.Beside k s s') (i : Nat) (g g' : Watch → Watch)
    (same : ∀ w, g' (B.shift.watch w) = B.shift.watch (g w)) (kept : ∀ w, B.Watched w → B.Watched (g w)) :
    B.Beside k (s.modifyWatch i g) (s'.modifyWatch i g') := by
  refine { h with watches := ?_, watched := fun w hw => ?_ }
  · change s'.watches.modify i g' = (s.watches.modify i g).map B.shift.watch
    rw [h.watches]
    apply List.ext_getElem?
    intro j
    rw [List.getElem?_modify, List.getElem?_map, List.getElem?_map, List.getElem?_modify]
    cases s.watches[j]? with
    | none => split <;> rfl
    | some w =>
      split
      · exact congrArg some (same w)
      · rfl
  · obtain ⟨j, hj⟩ := List.mem_iff_getElem?.1 hw
    change (s.watches.modify i g)[j]? = some w at hj
    rw [List.getElem?_modify] at hj
    obtain ⟨v, hv, rfl⟩ := Option.map_eq_some_iff.1 hj
    have known := h.watched v (List.mem_of_getElem? hv)
    split
    · exact kept v known
    · exact known

theorem produce (h : B.Beside k s s') (v : Value) :
    B.Beside k { s with produced := s.produced.push v }
      { s' with produced := s'.produced.push (B.shift.value v) } := by
  refine { h with produced := ?_ }
  dsimp only
  rw [h.produced, Array.map_push]

/-! ## Frames -/

/-- Under the first limit a frame is entered in both states, or it is refused in the first one. -/
theorem push (h : B.Beside k s s') :
    (∃ u u', s.push = .ok u ∧ s'.push = .ok u' ∧ B.Beside (k + 1) u u' ∧ B.Deep (k + 1)) ∨
      ∃ limit, s.push = .error (.callDepth limit) ∧
        (s'.push = .error (.callDepth limit) ∨ B.Excused (.ofFault (.callDepth limit))) := by
  unfold State.push
  rw [h.depth]
  by_cases full : s.maxDepth > 0 ∧ (k : Int) ≥ s.maxDepth
  · rw [if_pos full]
    refine .inr ⟨s.maxDepth, rfl, ?_⟩
    rcases B.refuses h.limits full with same | excused
    · left
      rw [same, h.depth', if_pos full]
    · exact .inr excused
  · rw [if_neg full]
    obtain ⟨free, deep⟩ := B.enters h.limits full
    rw [h.depth', if_neg free]
    refine .inl ⟨_, _, rfl, rfl, ?_, deep⟩
    exact { h with
      depth := rfl
      above := Nat.le_succ_of_le h.above
      height := Nat.succ_le_succ h.height
      frames := .cons framed_empty h.frames
      depth' := rfl }

end Beside

/-- A frame entered since the start can be left. -/
theorem Tall.pop (h : B.Tall (k + 1) s) (above : B.base ≤ k) : ∃ t, s.pop? = some t ∧ B.Tall k t := by
  have height := h.height
  unfold State.pop?
  rw [h.depth]
  cases hf : s.frames with
  | nil =>
    rw [hf, List.length_nil] at height
    omega
  | cons f fs =>
    rw [hf, List.length_cons] at height
    exact ⟨_, rfl, rfl, above, by dsimp only; omega⟩

theorem Beside.pop (h : B.Beside (k + 1) s s') (above : B.base ≤ k) :
    ∃ t t', s.pop? = some t ∧ s'.pop? = some t' ∧ B.Beside k t t' := by
  have frames := h.frames
  obtain ⟨t, left, tall⟩ := h.toTall.pop above
  unfold State.pop? at left ⊢
  rw [h.depth] at left ⊢
  rw [h.depth']
  cases hf : s.frames with
  | nil =>
    rw [hf] at left
    cases left
  | cons f fs =>
    rw [hf] at left frames
    rw [List.forall₂_cons_left_iff] at frames
    obtain ⟨f', fs', -, rest, hf'⟩ := frames
    rw [hf']
    cases left
    refine ⟨_, _, rfl, rfl, { h with
      toTall := tall, frames := rest, depth' := rfl, watches := ?_, watched := fun w hw => ?_ }⟩
    · dsimp only
      rw [h.watches, List.filter_map]
      rfl
    · exact h.watched w (List.mem_filter.1 hw).1

end Bridge

end Gapscript
