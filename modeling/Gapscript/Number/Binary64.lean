/-!
# Numbers as scaled integers

A finite number of double precision is an integer of at most 53 bits times a power of two. `view`
takes a number apart, `ofRatio?` rounds a quotient to the nearest number, a tie going to the even
neighbour. Everything that has to be exact (reading, writing, remainders, scaling) goes through
these two and integer arithmetic.
-/

namespace Gapscript.Number

/-- A power of two. -/
def pow2 (n : Nat) : Nat := Nat.pow 2 n

/-- A power of ten. -/
def pow10 (n : Nat) : Nat := Nat.pow 10 n

/-- A number taken apart: a finite one is `mantissa · 2 ^ exponent`. -/
inductive View where
  | nan
  | infinite (negative : Bool)
  | finite (negative : Bool) (mantissa : Nat) (exponent : Int)
deriving DecidableEq

/-- The parts of a number. -/
def view (x : Float) : View :=
  let bits := x.toBits.toNat
  let negative := bits / pow2 63 == 1
  let exponent : Nat := bits / pow2 52 % pow2 11
  let fraction := bits % pow2 52
  if exponent = 2047 then
    if fraction = 0 then .infinite negative else .nan
  else if exponent = 0 then .finite negative fraction (-1074)
  else .finite negative (fraction + pow2 52) ((exponent : Int) - 1075)

/-- The number has its sign bit set. -/
def isNegative (x : Float) : Bool := x.toBits.toNat / pow2 63 == 1

/-- The number is neither infinite nor NaN. -/
def isFinite (x : Float) : Bool :=
  match view x with
  | .finite .. => true
  | _ => false

/-- The number is infinite, of either sign. -/
def isInfinite (x : Float) : Bool :=
  match view x with
  | .infinite _ => true
  | _ => false

/-- The infinite number of a sign. -/
def infinity (negative : Bool) : Float :=
  Float.ofBits (if negative then 0xFFF0000000000000 else 0x7FF0000000000000)

/-- The number that is no number. -/
def nan : Float := Float.ofBits 0x7FF8000000000001

/-- The number with the given sign. -/
def withSign (negative : Bool) (x : Float) : Float :=
  if negative == isNegative x then x else -x

/-- Division that rounds to the nearest integer, a tie to the even one. -/
def roundDiv (n d : Nat) : Nat :=
  let q := n / d
  let r := n % d
  if 2 * r < d then q
  else if 2 * r = d then q + q % 2
  else q + 1

/-- The quotient `n / (d · 2 ^ e)` rounded to an integer. -/
def roundScaled (n d : Nat) (e : Int) : Nat :=
  if e ≥ 0 then roundDiv n (d * pow2 e.toNat) else roundDiv (n * pow2 (-e).toNat) d

/-- The exponent at which `n / d` has 53 significant bits, or the least one there is. -/
def scaleOf (n d : Nat) : Int :=
  let e : Int := (n.log2 : Int) - (d.log2 : Int) - 53
  let full := if e ≥ 0 then n / (d * pow2 e.toNat) else n * pow2 (-e).toNat / d
  max (-1074) (if full < pow2 53 then e else e + 1)

/-- The number nearest to `n / d`, unless that is beyond the finite numbers. -/
def ofRatio? (n d : Nat) : Option Float :=
  if n = 0 then some (Float.ofBits 0)
  else
    let e := scaleOf n d
    let m := roundScaled n d e
    let (m, e) := if m = pow2 53 then (pow2 52, e + 1) else (m, e)
    if e > 971 then none
    else if m < pow2 52 then some (Float.ofBits (UInt64.ofNat m))
    else some (Float.ofBits (UInt64.ofNat ((e + 1075).toNat * pow2 52 + (m - pow2 52))))

/-- The number nearest to `n · 2 ^ e`, infinite if that is out of range. -/
def ofScaled (negative : Bool) (n : Nat) (e : Int) : Float :=
  if n = 0 then withSign negative (Float.ofBits 0)
  else
    let top : Int := (n.log2 : Int) + e
    if top > 1100 then infinity negative
    else if top < -1200 then withSign negative (Float.ofBits 0)
    else
      let r := if e ≥ 0 then ofRatio? (n * pow2 e.toNat) 1 else ofRatio? n (pow2 (-e).toNat)
      match r with
      | some x => withSign negative x
      | none => infinity negative

/-- The number nearest to an integer, infinite if that is out of range. -/
def ofInt (n : Int) : Float := ofScaled (n < 0) n.natAbs 0

/-- A number times a power of two. -/
def scale (x : Float) (e : Int) : Float :=
  match view x with
  | .finite negative m q => ofScaled negative m (q + e)
  | _ => x

/-- The number without its fraction. -/
def truncate (x : Float) : Float :=
  match view x with
  | .finite negative m q => if q ≥ 0 then x else ofScaled negative (m / pow2 (-q).toNat) 0
  | _ => x

/-- The magnitude of a finite number without its fraction. -/
def wholePart (x : Float) : Nat :=
  match view x with
  | .finite _ m q => if q ≥ 0 then m * pow2 q.toNat else m / pow2 (-q).toNat
  | _ => 0

end Gapscript.Number
