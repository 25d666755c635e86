import Gapscript.Value.Comparison
import Gapscript.Number.Power

/-!
# Operators on values

The meaning of the prefix and binary operators on values. Logical operators are given here for
values already computed; whether the right side is computed at all is decided where expressions
are evaluated.
-/

namespace Gapscript

/-- A power of a big integer. Those of 0, 1 and -1 follow from whether the exponent is even, so an
exponent too large for any other base serves them too. -/
def bigintPower (x : Int) (n : Nat) : Int :=
  if x.natAbs ≤ 1 then
    if n = 0 then 1 else if n % 2 = 0 then x * x else x
  else Int.pow x n

/-- The short way to a power of 0, 1 or -1 changes no result. -/
theorem bigintPower_eq (x : Int) (n : Nat) : bigintPower x n = Int.pow x n := by
  unfold bigintPower
  split
  case isFalse => rfl
  case isTrue small =>
    have cube : x * x * x = x := by
      have : x = 0 ∨ x = 1 ∨ x = -1 := by omega
      rcases this with h | h | h <;> subst h <;> rfl
    induction n with
    | zero => exact (Int.pow_zero x).symm
    | succ n ih =>
      rw [show Int.pow x (n + 1) = Int.pow x n * x from Int.pow_succ x n, ← ih]
      by_cases zero : n = 0
      · subst zero; simp
      · by_cases even : n % 2 = 0
        · simp [zero, even, cube, show (n + 1) % 2 = 1 by omega]
        · simp [zero, even, show (n + 1) % 2 = 0 by omega]

/-- Arithmetic on big integers; division goes toward zero. -/
def bigintArithmetic (op : BinaryOp) (x y : Int) : Except TypeFault Value :=
  match op with
  | .add => .ok (.bigint (x + y))
  | .sub => .ok (.bigint (x - y))
  | .mul => .ok (.bigint (x * y))
  | .div => if y = 0 then .error .bigintDivisionByZero else .ok (.bigint (x.tdiv y))
  | .mod => if y = 0 then .error .bigintDivisionByZero else .ok (.bigint (x.tmod y))
  | .pow => if y < 0 then .error .bigintNegativeExponent else .ok (.bigint (bigintPower x y.toNat))
  | op => .error (.unsupported op)

/-- Arithmetic on numbers. -/
def numberArithmetic (op : BinaryOp) (x y : Float) : Except TypeFault Value :=
  match op with
  | .add => .ok (.number (x + y))
  | .sub => .ok (.number (x - y))
  | .mul => .ok (.number (x * y))
  | .div => .ok (.number (x / y))
  | .mod => .ok (.number (Number.remainder x y))
  | .pow => .ok (.number (Number.power x y))
  | op => .error (.unsupported op)

/-- Arithmetic on any two values. -/
def arithmetic (op : BinaryOp) (a b : Value) : Except TypeFault Value :=
  match a, b with
  | .bigint x, .bigint y => bigintArithmetic op x y
  | .bigint _, b => .error (.mixedBigint b.typeName op)
  | a, .bigint _ => .error (.mixedBigint a.typeName op)
  | a, b =>
    if a.kind = .symbol || b.kind = .symbol then .error .symbolArithmetic
    else numberArithmetic op a.toNumber b.toNumber

/-- The value shows as text next to a plus sign. -/
def Value.joinsAsText (v : Value) : Bool :=
  match v with
  | .string _ | .object _ => true
  | _ => false

namespace Heap

/-- A prefix operator applied to a value. -/
def unary (op : UnaryOp) (v : Value) : Except TypeFault Value :=
  match op, v with
  | .not, v => .ok (.boolean (!v.toBoolean))
  | .negate, .bigint n => .ok (.bigint (-n))
  | .negate, .symbol _ => .error (.negation "symbol")
  | .negate, .function _ => .error (.negation "function")
  | .negate, v => .ok (.number (-v.toNumber))

/-- A binary operator applied to two values. -/
def binary (h : Heap) (op : BinaryOp) (a b : Value) : Except TypeFault Value :=
  match op with
  | .equal => .ok (.boolean (h.looseEq a b))
  | .notEqual => .ok (.boolean (!h.looseEq a b))
  | .strictEqual => .ok (.boolean (a.strictEq b))
  | .strictNotEqual => .ok (.boolean (!a.strictEq b))
  | .less | .greater | .lessEqual | .greaterEqual => compareValues op a b
  | .and => .ok (if a.toBoolean then b else a)
  | .or => .ok (if a.toBoolean then a else b)
  | .add =>
    if a.joinsAsText || b.joinsAsText then .ok (.string (h.display a ++ h.display b))
    else arithmetic .add a b
  | op => arithmetic op a b

/-- Reads a property of a value: null has none to read, other scalars have none. -/
def readProperty (h : Heap) (base : Value) (key : String) : Except TypeFault Value :=
  match base with
  | .object ref => .ok (h.lookup ref key)
  | .null => .error (.readOfNull key)
  | _ => .ok .undefined

end Heap

end Gapscript
