import Gapscript.Run.Eval
import Gapscript.Statement.Parser

/-!
# Blocks, branches and watches

A block runs in a frame of its own. Of some branches the first whose guard holds runs. A watch fires
when a variable it depends on no longer has the value it had when the watch last looked; its guards
are then read anew against the bindings in force, and it never fires from within its own body.
-/

namespace Gapscript

namespace State

/-- The state with a change to the watch of an index. -/
def modifyWatch (s : State) (i : Nat) (f : Watch → Watch) : State :=
  { s with watches := s.watches.modify i f }

/-- The values of some variables. -/
def valuesOf (s : State) (names : List String) : List Value := names.map s.valueOf

/-- Attaches a watch to the innermost frame. -/
def addWatch (s : State) (branches : List Branch) (deps : List String) (line : Int) : State :=
  { s with watches := s.watches ++ [⟨branches, deps, s.valuesOf deps, false, line, s.depth⟩] }

end State

/-- Some value differs from the one at the same place. -/
def differ : List Value → List Value → Bool
  | v :: vs, w :: ws => !v.strictEq w || differ vs ws
  | _, _ => false

/-- Reads the guards of some branches from their text. -/
def readGuards (names : Names) : List Branch → Reading (List Branch)
  | [] => pure []
  | b :: bs => do
    match b.guard with
    | none =>
      let rest ← readGuards names bs
      pure (b :: rest)
    | some g =>
      let tree ← fullExpression names ⟨g.text, g.pos⟩
      let rest ← readGuards names bs
      pure ({ b with guard := some { g with tree := tree } } :: rest)

section Blocks

variable (host : Host) (inner : Inner)

/-- Runs a body in a frame of its own; gives back a value if it returns. -/
def runBlock (collect : Bool) (body : Cursor) : Run (Option Value) :=
  Run.inFrame (some body.pos) do
    let s ← get
    Run.log .trace .scope ("entered scope depth " ++ toString s.depth)
    inner.statements collect body

/-- Runs the first branch whose guard holds. -/
def runBranches (collect : Bool) : List Branch → Run (Option Value)
  | [] => pure none
  | b :: bs => do
    match b.guard with
    | none => runBlock inner collect b.body
    | some g =>
      let v ← eval host inner g.tree
      if v.toBoolean then runBlock inner collect b.body else runBranches collect bs

/-- The branches of a watch with their guards read anew. Names that the guards did not mention
before become dependencies. -/
def rereadWatch (i : Nat) (w : Watch) : Run (List Branch) := fun s =>
  match readGuards s.names w.branches w.deps with
  | .error e _ => .error e.settled s
  | .ok bs deps =>
    if deps.length = w.deps.length then .ok bs s
    else .ok bs (s.modifyWatch i fun w => { w with deps := deps, snapshot := s.valuesOf deps })

/-- Fires the watch of an index. -/
def fireWatch (i : Nat) (w : Watch) : Run Unit := do
  modify fun s => s.modifyWatch i fun w => { w with firing := true }
  Run.always (fun s => s.modifyWatch i fun w => { w with firing := false }) do
    Run.debug .watch ("watch from line " ++ toString w.line ++ " triggered")
    let bs ← rereadWatch i w
    let _ ← runBranches host inner false bs

/-- Looks at the watch of an index and fires it if something it depends on has changed. -/
def checkWatch (i : Nat) : Run Unit := do
  let s ← get
  match s.watches[i]? with
  | none => pure ()
  | some w =>
    let current := s.valuesOf w.deps
    if !w.firing && differ current w.snapshot then
      modify fun s => s.modifyWatch i fun w => { w with snapshot := current }
      fireWatch host inner i w

/-- Looks at some watches in order. -/
def checkWatchesFrom (i : Nat) : (count : Nat) → Run Unit
  | 0 => pure ()
  | count + 1 => do
    checkWatch host inner i
    checkWatchesFrom (i + 1) count

/-- Looks at every watch, outermost first. -/
def checkWatches : Run Unit := do
  let s ← get
  checkWatchesFrom host inner 0 s.watches.length

end Blocks

end Gapscript
