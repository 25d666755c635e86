import Gapscript.Proofs.Run.Frames

/-!
# Confined runs

The bodies that a run starts are reached through `Inner`, so they can be watched there: `confinedAt`
runs everything as `innerAt` does, except that a body that is not permitted stops the run.
`StartsOnly` says that this does not happen, which evaluation decides for a run at hand. A course
over which the permitted bodies pass is kept by a run that starts only such bodies, and the run is
then the unconfined one, whichever way statements may be closed.
-/

namespace Gapscript

/-- Runs only the permitted bodies. -/
def Inner.confined (permitted : Cursor → Bool) (inner : Inner) : Inner where
  statements collect c := if permitted c then inner.statements collect c else throw .exhausted
  expression := inner.expression

/-- What runs inside a frame with room for `n` more, and only the permitted bodies. -/
def confinedAt (host : Host) (permitted : Cursor → Bool) : (n : Nat) → Inner
  | 0 => innerAt host 0
  | n + 1 =>
    let inner := confinedAt host permitted n
    Inner.confined permitted ⟨runStatements host inner, eval host inner⟩

/-- With room for `n` frames, the run comes to its end and starts only permitted bodies on the way. -/
def StartsOnly (host : Host) (permitted : Cursor → Bool) (n : Nat) {α : Type} (x : Inner → Run α)
    (s : State) : Prop :=
  ¬ (x (confinedAt host permitted n)).Stopped s

instance (host : Host) (permitted : Cursor → Bool) (n : Nat) {α : Type} (x : Inner → Run α) (s : State) :
    Decidable (StartsOnly host permitted n x s) :=
  inferInstanceAs (Decidable (¬ _))

namespace Course

variable {host : Host} {k : Course host} {permitted : Cursor → Bool} {closes : Bool} {n : Nat}

theorem follows_confined {inner inner' : Inner} (follows : k.Follows True inner inner')
    (raised : k.Raised .exhausted) (self : k.Surrounds True k.toPact)
    (passable : ∀ c, permitted c = true → k.Passable closes c) :
    k.Follows True (Inner.confined permitted ⟨runStatements host inner, eval host inner⟩)
      ⟨runStatements (host.ending closes) inner', eval (host.ending closes) inner'⟩ where
  statements collect c s hs := by
    change k.Tracks True s (if permitted c then _ else _) _
    split
    · next hc => exact tracks_runStatements ⟨k, self, follows⟩ hs collect (passable c hc)
    · exact Pact.tracks_exhausted hs trivial raised _
  expression e s hs := tracks_eval ⟨k, self, follows⟩ e hs

/-- Confined runs keep a course over which the permitted bodies pass, at every depth of frames. -/
theorem follows_confinedAt (self : k.Surrounds True k.toPact) (raised : k.Raised .exhausted)
    (passable : ∀ c, permitted c = true → k.Passable closes c) (n : Nat) :
    k.Follows True (confinedAt host permitted n) (innerAt (host.ending closes) n) := by
  induction n with
  | zero =>
    refine ⟨fun collect c s hs => ?_, fun e s hs => ?_⟩
    · exact Pact.tracks_exhausted hs trivial raised _
    · exact Pact.tracks_exhausted hs trivial raised _
  | succ n ih => exact follows_confined ih raised self passable

theorem nests_confinedAt (self : k.Surrounds True k.toPact) (raised : k.Raised .exhausted)
    (passable : ∀ c, permitted c = true → k.Passable closes c) (n : Nat) :
    k.Nests True (confinedAt host permitted n) (innerAt (host.ending closes) n) :=
  ⟨k, self, follows_confinedAt self raised passable n⟩

end Course

/-- A run that starts only permitted bodies is the unconfined run, and the pact allows it. -/
theorem StartsOnly.allows {host : Host} {k : Pact host} {permitted : Cursor → Bool} {n : Nat} {α : Type}
    {x : Inner → Run α} {y : Run α} {s : State} (starts : StartsOnly host permitted n x s)
    (tracks : k.Tracks True s (x (confinedAt host permitted n)) y) :
    y s = x (confinedAt host permitted n) s ∧ k.Allows s (y s) := by
  have same := tracks.eq starts
  exact ⟨same, same ▸ tracks.1⟩

end Gapscript
