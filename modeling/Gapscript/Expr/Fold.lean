import Gapscript.Expr.Tree

/-!
# Precedence by white space

Operators wait on a stack until one with more space around them arrives. An operator with less
space binds first; equal space leaves the choice to the class of the operator, and equal classes
group to the left.
-/

namespace Gapscript

/-- A run of one prefix operator written without gaps, and the white space after it. -/
structure UnaryRun where
  op : UnaryOp
  count : Nat
  width : Nat
deriving DecidableEq, Inhabited

namespace UnaryRun

/-- The list of runs after reading one more operator, the latest run first. -/
def extend (op : UnaryOp) (width : Nat) : List UnaryRun → List UnaryRun
  | r :: rs =>
    if r.op = op ∧ r.width = 0 then { r with count := r.count + 1, width := width } :: rs
    else ⟨op, 1, width⟩ :: r :: rs
  | [] => [⟨op, 1, width⟩]

/-- The kept runs, latest first, after one more run: operators cancel in pairs, and a run that
cancels entirely leaves its white space to the kept run before it. -/
def keep (kept : List UnaryRun) (r : UnaryRun) : List UnaryRun :=
  if r.count % 2 = 0 then
    match kept with
    | k :: ks => { k with width := k.width + r.width } :: ks
    | [] => []
  else { r with count := 1 } :: kept

/-- The runs that remain after cancelling operators in pairs. -/
def collapse (runs : List UnaryRun) : List UnaryRun :=
  (runs.foldl keep []).reverse

end UnaryRun

/-- An operator waiting for its operands. -/
inductive Pending where
  | unary (op : UnaryOp) (width : Nat)
  | binary (op : BinaryOp) (width : Nat)
deriving DecidableEq, Inhabited

namespace Pending

/-- A waiting operator is resolved when the given binary operator arrives. -/
def yields (p : Pending) (op : BinaryOp) (width : Nat) : Bool :=
  match p with
  | .unary _ w => w ≤ width
  | .binary o w => w < width || (w == width && op.tieClass ≤ o.tieClass)

/-- Applies a waiting operator to the operands on top of the stack. -/
def apply : Pending → List Expr → List Expr
  | .unary op _, e :: es => .unary op e :: es
  | .binary op _, r :: l :: es => .binary op l r :: es
  | _, es => es

end Pending

/-- Operands and waiting operators, the latest first. -/
structure Fold where
  operands : List Expr := []
  pending : List Pending := []
deriving Inhabited

namespace Fold

/-- Takes an operand with its prefix operators. -/
def pushOperand (f : Fold) (runs : List UnaryRun) (e : Expr) : Fold :=
  { operands := e :: f.operands
    pending := runs.foldl (fun ps r => .unary r.op r.width :: ps) f.pending }

/-- Resolves the waiting operators that yield to the given one. -/
def settle (op : BinaryOp) (width : Nat) (operands : List Expr) : List Pending → Fold
  | [] => ⟨operands, []⟩
  | p :: ps => if p.yields op width then settle op width (p.apply operands) ps else ⟨operands, p :: ps⟩

/-- Takes a binary operator. -/
def pushBinary (f : Fold) (op : BinaryOp) (width : Nat) : Fold :=
  let g := settle op width f.operands f.pending
  { g with pending := .binary op width :: g.pending }

/-- Resolves everything that waits. -/
def finish (f : Fold) : List Expr :=
  f.pending.foldl (fun es p => p.apply es) f.operands

end Fold

end Gapscript
