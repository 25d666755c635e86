import Gapscript.Value.Basic
import Gapscript.Operator

/-!
# Expression trees

A tree is read against the bindings in force: a variable carries the value it had when it was read,
a call carries the function its name stood for.
-/

namespace Gapscript

mutual

/-- An expression: a base with its accessors, or an operator with its operands. -/
inductive Expr where
  | atom (base : Base) (accessors : List Accessor) (pos : Position)
  | unary (op : UnaryOp) (operand : Expr)
  | binary (op : BinaryOp) (left right : Expr)

/-- The smallest unit of an expression. An implicit literal is a text nobody quoted. -/
inductive Base where
  | literal (v : Value) (implicit : Bool)
  | name (name : String) (v : Value)
  | call (name : String) (fn : FunctionRef) (args : List Expr) (pos : Position)
  | object (keys : List String) (values : List Expr)
  | array (elements : List Expr)
  | function (fn : Function)

/-- A property read off what stands before it. -/
inductive Accessor where
  | dot (name : String)
  | index (e : Expr)

end

instance : Inhabited Base := ⟨.literal .undefined false⟩
instance : Inhabited Expr := ⟨.atom default [] {}⟩
instance : Inhabited Accessor := ⟨.dot ""⟩

/-- An operand of the expression is a text nobody quoted. -/
def Expr.hasImplicit : Expr → Bool
  | .unary _ e => e.hasImplicit
  | .binary _ l r => l.hasImplicit || r.hasImplicit
  | .atom (.literal _ implicit) _ _ => implicit
  | .atom .. => false

end Gapscript
