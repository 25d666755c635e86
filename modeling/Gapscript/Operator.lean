/-!
# Operators

The sixteen binary and the two prefix operators. Precedence is a matter of the white space around
an operator; the class only decides between operators written with equal space.
-/

namespace Gapscript

/-- An operator between two operands. -/
inductive BinaryOp where
  | add | sub | mul | div | mod | pow
  | equal | strictEqual | notEqual | strictNotEqual
  | less | greater | lessEqual | greaterEqual
  | and | or
deriving DecidableEq, Inhabited

namespace BinaryOp

/-- How the operator is written. -/
def token : BinaryOp → String
  | add => "+"
  | sub => "-"
  | mul => "*"
  | div => "/"
  | mod => "%"
  | pow => "^"
  | equal => "=="
  | strictEqual => "==="
  | notEqual => "!="
  | strictNotEqual => "!=="
  | less => "<"
  | greater => ">"
  | lessEqual => "<="
  | greaterEqual => ">="
  | and => "&&"
  | or => "||"

/-- Every operator, longer tokens before the tokens they begin with. -/
def all : List BinaryOp :=
  [strictEqual, strictNotEqual, equal, notEqual, lessEqual, greaterEqual, and, or, less, greater,
    add, sub, mul, div, mod, pow]

theorem mem_all (op : BinaryOp) : op ∈ all := by cases op <;> decide

/-- Which operator binds first when two have the same space around them; the higher one does. -/
def tieClass : BinaryOp → Nat
  | mul | div | mod => 1
  | pow => 2
  | _ => 0

end BinaryOp

/-- An operator in front of its operand. -/
inductive UnaryOp where
  | negate | not
deriving DecidableEq, Inhabited

/-- How the operator is written. -/
def UnaryOp.token : UnaryOp → String
  | negate => "-"
  | not => ";"

end Gapscript
