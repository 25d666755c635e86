import Gapscript.Number.Binary64

/-!
# Shortest decimals

The fewest decimal digits that read back as the same number. All decimals between the midpoints to
the two neighbouring numbers read back; among the shortest of them the one nearest to the number is
taken, and the even one of two equally near.
-/

namespace Gapscript.Number

/-- The decimal `0.d₁d₂… · 10 ^ point` with the digits of `digits`. -/
structure Decimal where
  digits : List Char
  point : Int
deriving DecidableEq

/-- The reals that round to `m · 2 ^ e`, over a common denominator. -/
structure Interval where
  low : Nat
  value : Nat
  high : Nat
  denominator : Nat
  closed : Bool

/-- The interval of `m · 2 ^ e`; below a power of two the neighbour is only half as far. -/
def Interval.of (m : Nat) (e : Int) : Interval :=
  let up := pow2 e.toNat
  let gap := if m = pow2 52 ∧ e > -1074 then 1 else 2
  ⟨(4 * m - gap) * up, 4 * m * up, (4 * m + 2) * up, 4 * pow2 (-e).toNat, m % 2 == 0⟩

/-- The decimal `n · 10 ^ k` lies in the interval. -/
def Interval.contains (i : Interval) (n : Nat) (k : Int) : Bool :=
  let x := n * pow10 k.toNat * i.denominator
  let scale := pow10 (-k).toNat
  let low := i.low * scale
  let high := i.high * scale
  if i.closed then low ≤ x && x ≤ high else low < x && x < high

/-- The least `k` from the given one on with `value < 10 ^ k`. -/
def Interval.magnitudeFrom (i : Interval) : Nat → Int → Int
  | 0, k => k
  | fuel + 1, k =>
    if i.value * pow10 (-k).toNat < i.denominator * pow10 k.toNat then k
    else magnitudeFrom i fuel (k + 1)

/-- The number of digits before the decimal point. -/
def Interval.magnitude (i : Interval) : Int :=
  let bits : Int := (i.value.log2 : Int) - (i.denominator.log2 : Int)
  i.magnitudeFrom 8 (bits * 30103 / 100000 - 2)

/-- The best decimal of the interval with its last digit at `10 ^ k`. -/
def Interval.onGrid (i : Interval) (k : Int) : Option Nat :=
  let n := i.value * pow10 (-k).toNat
  let d := i.denominator * pow10 k.toNat
  let nearest := roundDiv n d
  let below := n / d
  if i.contains nearest k then some nearest
  else if i.contains below k then some below
  else if i.contains (below + 1) k then some (below + 1)
  else none

/-- The first grid with a decimal of the interval, trying `digits` digits, then more. -/
def Interval.search (i : Interval) (magnitude : Int) : Nat → Nat → Nat × Int
  | 0, digits => (0, magnitude - digits)
  | fuel + 1, digits =>
    match i.onGrid (magnitude - digits) with
    | some n => (n, magnitude - digits)
    | none => search i magnitude fuel (digits + 1)

/-- The digits of an integer without zeros at the end. -/
def significant (n : Nat) : List Char :=
  ((Nat.toDigits 10 n).reverse.dropWhile (· == '0')).reverse

/-- The shortest decimal that reads back as `m · 2 ^ e`. -/
def shortest (m : Nat) (e : Int) : Decimal :=
  if m = 0 then ⟨[], 0⟩
  else
    let i := Interval.of m e
    let (n, k) := i.search i.magnitude 18 1
    ⟨significant n, (Nat.toDigits 10 n).length + k⟩

end Gapscript.Number
