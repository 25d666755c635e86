import Gapscript.Proofs.Reading.Closing
import Gapscript.Proofs.Run.Confined
import Gapscript.Proofs.Session.Stack

/-!
# The ends of bodies

Typed input may leave out the end of its last statement. Whether it may is a property of the host,
which the bodies that the input starts are read by as well. A run that starts only bodies whose
statements are all closed by themselves does the same for either host; a body that leaves its last
statement open is refused by one host and completed by the other.
-/

namespace Gapscript

open Lexical

/-- Every statement of the text is read alike whether or not the end of the text may close it. -/
inductive Cursor.Closed : Cursor → Prop
  | done {c : Cursor} (blank : (skipGap c).atEnd = true) : Closed c
  | next {c : Cursor}
    (alike : ∀ names, statement ⟨names, true⟩ (skipGap c) = statement ⟨names, false⟩ (skipGap c))
    (rest : ∀ names stmt d, statement ⟨names, false⟩ (skipGap c) = .ok (stmt, d) → Closed d) : Closed c

/-- If the run starts only permitted bodies for a host that does not close statements, it does the same
for one that does. -/
def EndsAlike (host : Host) (permitted : Cursor → Bool) (n : Nat) (s : State) {α : Type}
    (x : Host → Inner → Run α) : Prop :=
  StartsOnly (host.ending false) permitted n (x (host.ending false)) s →
    x (host.ending true) (innerAt (host.ending true) n) s =
      x (host.ending false) (innerAt (host.ending false) n) s

section Alike

variable {host : Host} (natives : ∀ f ∈ (host.ending false).functions, f.KeepsFrames)

theorem Cursor.Closed.passable {c : Cursor} (closed : c.Closed) (closes : Bool) :
    (Contract.frames natives).toCourse.Passable closes c := by
  induction closed with
  | done blank => exact .done blank
  | next alike rest ih =>
    refine .next ⟨trivial, fun names => ?_⟩ ih
    cases closes with
    | false => rfl
    | true => exact alike names

theorem surrounds_frames :
    (Contract.frames natives).Surrounds True (Contract.frames natives).toPact where
  enter := (Contract.encloses_frames natives).enter
  leave := (Contract.encloses_frames natives).leave
  raised := (Contract.encloses_frames natives).raised
  left := by
    intro _ s u v hs entered inside
    obtain ⟨w, left, -⟩ := State.pop_of_push entered (inside.sameStack natives)
    rw [left]
    rfl

variable {permitted : Cursor → Bool} (closed : ∀ c, permitted c = true → c.Closed)

include closed in
theorem nests_closed (closes : Bool) (n : Nat) :
    (Contract.frames natives).toCourse.Nests True (confinedAt (host.ending false) permitted n)
      (innerAt (host.ending closes) n) :=
  have exhausted : ¬ Error.RefusedPop .exhausted := fun ⟨_, he⟩ => nomatch he
  Course.nests_confinedAt (surrounds_frames natives) exhausted
    (fun c hc => (closed c hc).passable natives closes) n

theorem endsAlike_of_tracks {n : Nat} {s : State} {α : Type} {x : Host → Inner → Run α}
    (tracks : ∀ closes, (Contract.frames natives).Tracks True s
      (x (host.ending false) (confinedAt (host.ending false) permitted n))
      (x (host.ending closes) (innerAt (host.ending closes) n))) :
    EndsAlike host permitted n s x :=
  fun starts => ((tracks true).eq starts).trans ((tracks false).eq starts).symm

end Alike

/-- A call, a block, branches or a watch that starts only closed bodies does the same whether or not the
end of a text may close a statement. What the end of a text does close is a statement that goes to it. -/
theorem closed_bodies_end_alike {host : Host} (natives : ∀ f ∈ host.functions, f.KeepsFrames)
    {permitted : Cursor → Bool} (closed : ∀ c, permitted c = true → c.Closed) (n : Nat) {s : State}
    (hs : s.Balanced) :
    (∀ fn args pos, EndsAlike host permitted n s fun host inner => callFunction host inner fn args pos) ∧
    (∀ collect body, EndsAlike host permitted n s fun _ inner => runBlock inner collect body) ∧
    (∀ collect bs, EndsAlike host permitted n s fun host inner => runBranches host inner collect bs) ∧
    (∀ i w, EndsAlike host permitted n s fun host inner => fireWatch host inner i w) ∧
    ∀ names c, statement ⟨names, true⟩ c = statement ⟨names, false⟩ c ∨
      ∃ stmt d, statement ⟨names, true⟩ c = .ok (stmt, d) ∧ d.rest = [] := by
  have natives : ∀ f ∈ (host.ending false).functions, f.KeepsFrames := natives
  have nests (closes : Bool) := nests_closed natives closed closes n
  refine ⟨fun fn args pos => ?_, fun collect body => ?_, fun collect bs => ?_, fun i w => ?_, ?_⟩
  · refine endsAlike_of_tracks natives fun closes => ?_
    exact Course.tracks_callFunction (nests closes) hs fn args pos
  · refine endsAlike_of_tracks natives fun closes => ?_
    exact Course.tracks_runBlock (nests closes) hs collect body
  · refine endsAlike_of_tracks natives fun closes => ?_
    exact Course.tracks_runBranches (nests closes) hs collect bs
  · refine endsAlike_of_tracks natives fun closes => ?_
    exact Course.tracks_fireWatch (nests closes) hs i w
  · exact statement_eq_or_ends

/-- A function that counts its calls, with a statement that is closed. -/
theorem closed_bodies_end_alike_counter :
    let host : Host := ⟨Library.standard.toArray, false⟩
    let body : Text := ['x', '+', '+', '!', ' ']
    let f : FunctionRef := ⟨0, ⟨"f", [], .script body {} true, 1⟩⟩
    let s : State := { frames := [{ vars := [⟨"x", .bigint 1, .varVar, .forever, 1, false, {}⟩] }] }
    let permitted (c : Cursor) : Bool := c.rest == body
    (∀ f ∈ host.functions, f.KeepsFrames) ∧ (∀ c, permitted c = true → c.Closed) ∧ s.Balanced ∧
      StartsOnly host permitted 2 (fun inner => callFunction host inner f [] none) s ∧
      callFunction (host.ending true) (innerAt (host.ending true) 2) f [] none s =
        callFunction host (innerAt host 2) f [] none s := by
  intro host body f s permitted
  have natives : ∀ f ∈ host.functions, f.KeepsFrames := by
    intro f hf
    exact keepsFrames_standard (by simpa [host] using hf)
  have closed : ∀ c, permitted c = true → c.Closed := by
    rintro ⟨text, pos⟩ hc
    obtain rfl : text = body := by simpa [permitted] using hc
    refine .next (fun names => rfl) fun names stmt d read => ?_
    cases read
    exact .done rfl
  have balanced : s.Balanced := ⟨rfl, by decide⟩
  have starts : StartsOnly host permitted 2 (fun inner => callFunction host inner f [] none) s := by
    decide +kernel
  have alike := (closed_bodies_end_alike natives closed 2 balanced).1 f [] none
  exact ⟨natives, closed, balanced, starts, alike starts⟩

/-- A function that leaves its only statement open: an expression cannot call it, a declaration can. -/
theorem open_body_ends_otherwise :
    let i := ((Interpreter.new {} false).evaluateTyped "function f => \x7b return 1n \x7d").2
    (i.evaluateTyped "f").1.error.isSome = true ∧ (i.evaluateTyped "var var x = f").1.error = none := by
  decide +kernel

end Gapscript
