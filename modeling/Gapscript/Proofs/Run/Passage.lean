import Gapscript.Proofs.Run.Discreet
import Gapscript.Proofs.Run.Upheld

/-!
# The states that a run passes through

A `Passage` is a sequence of single changes to the state: steps within a frame, and frames that are
entered and left. Every run makes one, whatever its outcome, and where the functions of the host are
discreet it makes the same one after any earlier records.
-/

namespace Gapscript

/-- A single change to the state. -/
inductive Event (host : Host) : State → State → Prop
  | step {s t : State} (within : Step host s t) : Event host s t
  | enter {s t : State} (pushed : s.push = .ok t) : Event host s t
  | leave {s t : State} (popped : s.pop? = some t) : Event host s t

/-- A way from one state to another by single changes, with every state that these lead to. -/
inductive Passage (host : Host) : State → List State → State → Prop
  | stay (s : State) : Passage host s [] s
  | move {s t u : State} {path : List State} (first : Event host s t) (rest : Passage host t path u) :
    Passage host s (t :: path) u

variable {host : Host} {s t u : State} {path path' : List State}

namespace Passage

theorem single (h : Event host s t) : Passage host s [t] t := .move h (.stay t)

theorem trans (h : Passage host s path t) (h' : Passage host t path' u) : Passage host s (path ++ path') u := by
  induction h with
  | stay s => exact h'
  | move first _ ih => exact .move first (ih h')

end Passage

/-! ## Every run makes a passage -/

namespace Contract

/-- Runs make passages. -/
def passages (host : Host) : Contract host where
  Pre _ := True
  Change s t := ∃ path, Passage host s path t
  Raised _ := True
  refl _ := ⟨[], .stay _⟩
  trans := by
    rintro s t u ⟨path, h⟩ ⟨path', h'⟩
    exact ⟨path ++ path', h.trans h'⟩
  stable _ _ := trivial
  step _ h := ⟨_, .single (.step h)⟩
  ordinary _ := trivial
  located _ _ := trivial
  native _ _ _ _ _ _ := trivial

theorem encloses_passages (host : Host) : (passages host).Encloses (passages host) where
  enter _ _ := trivial
  leave {s u v} _ entered inside := by
    obtain ⟨path, inside⟩ := inside
    have within : Passage host s (u :: path) v := .move (.enter entered) inside
    unfold Run.leave
    split
    · next popped => exact ⟨_, within.trans (.single (.leave popped))⟩
    · exact ⟨⟨_, within⟩, trivial⟩
  raised _ := trivial

theorem nested_passages (host : Host) (n : Nat) :
    (passages host).Nested (innerAt host n) (innerAt host n) :=
  ⟨passages host, encloses_passages host, bodies_innerAt (encloses_passages host) trivial n⟩

end Contract

/-! ## Passages after earlier records -/

theorem step_after (natives : ∀ f ∈ host.functions, f.Discreet) (earlier : Array Record)
    (h : Step host s t) : Step host (s.after earlier) (t.after earlier) := by
  cases h with
  | line line => exact .line (s.after earlier) line
  | record r =>
    rw [← State.record_after]
    exact .record _ r
  | declare name v m life =>
    rw [← State.declare_after]
    exact .declare _ name v m life
  | declareHoisted name v m life line =>
    rw [← State.declareHoisted_after]
    exact .declareHoisted _ name v m life line
  | define fn =>
    rw [← State.define_after]
    exact .define _ fn
  | assign name mode old rhs new found permitted combined =>
    rw [← State.assign_after]
    exact .assign _ name mode old rhs new found permitted combined
  | setProperty ref key v => exact .setProperty (s.after earlier) ref key v
  | newObject o => exact .newObject (s.after earlier) o
  | newFunction fn => exact .newFunction (s.after earlier) fn
  | addWatch bs deps line => exact .addWatch (s.after earlier) bs deps line
  | snapshot i w here => exact .snapshot (s.after earlier) i w here
  | firing i on => exact .firing (s.after earlier) i on
  | depend i deps => exact .depend (s.after earlier) i deps
  | produce v => exact .produce (s.after earlier) v
  | native f call known =>
    have same := natives f known call earlier s
    have reached : (f.handler call).reached (s.after earlier) =
        ((f.handler call).reached s).after earlier := by
      unfold Run.Echoes at same
      unfold Run.reached
      rw [same]
      cases f.handler call s with
      | ok v t => rfl
      | error e t => rfl
    rw [← reached]
    exact .native _ f call known

theorem Event.after (natives : ∀ f ∈ host.functions, f.Discreet) (earlier : Array Record)
    (h : Event host s t) : Event host (s.after earlier) (t.after earlier) := by
  cases h with
  | step within => exact .step (step_after natives earlier within)
  | enter pushed => exact .enter (by rw [State.push_after, pushed]; rfl)
  | leave popped => exact .leave (by rw [State.pop?_after, popped]; rfl)

theorem Passage.after (natives : ∀ f ∈ host.functions, f.Discreet) (earlier : Array Record)
    (h : Passage host s path t) :
    Passage host (s.after earlier) (path.map (State.after earlier)) (t.after earlier) := by
  induction h with
  | stay s => exact .stay _
  | move first _ ih => exact .move (first.after natives earlier) ih

end Gapscript
