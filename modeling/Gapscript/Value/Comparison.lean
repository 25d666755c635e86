import Gapscript.Value.Coercion
import Gapscript.Error

/-!
# Equality and order

Strict equality compares values of one type; objects, functions and symbols are equal only to
themselves. Loose equality compares scalars of different types as numbers, and a reference with a
scalar by its text.
-/

namespace Gapscript

/-- Same type and same value. -/
def Value.strictEq : Value → Value → Bool
  | .undefined, .undefined | .null, .null => true
  | .boolean a, .boolean b => a == b
  | .number a, .number b => a == b
  | .bigint a, .bigint b => a == b
  | .string a, .string b => a == b
  | .symbol a, .symbol b => a.id == b.id
  | .object a, .object b => a == b
  | .function a, .function b => a.id == b.id
  | _, _ => false

/-- A big integer and a number are the same whole number. -/
def bigintEqNumber (n : Int) (x : Float) : Bool :=
  Number.isFinite x && x == Number.truncate x && Number.ofInt n == x

namespace Heap

/-- Equality after coercion. -/
def looseEq (h : Heap) (a b : Value) : Bool :=
  if a.kind = b.kind then a.strictEq b
  else if a.isNullish || b.isNullish then a.isNullish && b.isNullish
  else if a.isReference || b.isReference then
    if a.isReference && b.isReference then false else h.display a == h.display b
  else match a, b with
    | .bigint n, b => bigintEqNumber n b.toNumber
    | a, .bigint n => bigintEqNumber n a.toNumber
    | a, b => a.toNumber == b.toNumber

/-- A comparison operator accepts an ordering. -/
def holds (op : BinaryOp) (o : Ordering) : Bool :=
  match op with
  | .less => o == .lt
  | .greater => o == .gt
  | .lessEqual => o != .gt
  | .greaterEqual => o != .lt
  | _ => false

/-- The order of two numbers that are not NaN. -/
def orderNumbers (x y : Float) : Ordering :=
  if x < y then .lt else if x > y then .gt else .eq

/-- Two texts in the order of their characters. -/
def orderTexts (s t : String) : Ordering :=
  if s < t then .lt else if t < s then .gt else .eq

/-- The outcome of a comparison operator. -/
def compareValues (op : BinaryOp) (a b : Value) : Except TypeFault Value :=
  match a, b with
  | .string s, .string t => .ok (.boolean (holds op (orderTexts s t)))
  | .bigint m, .bigint n => .ok (.boolean (holds op (compare m n)))
  | a, b =>
    if a.kind = .symbol || b.kind = .symbol then .error .symbolComparison
    else
      let x := a.toNumber
      let y := b.toNumber
      if x.isNaN || y.isNaN then .ok (.boolean false)
      else .ok (.boolean (holds op (orderNumbers x y)))

end Heap

end Gapscript
