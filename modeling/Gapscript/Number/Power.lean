import Gapscript.Number.Exponential

/-!
# Remainders and powers

The remainder of a division takes the sign of the dividend and is exact. A power multiplies out the
bits of a whole exponent on significands kept between one half and one, and takes a fractional
exponent through the logarithm.
-/

namespace Gapscript.Number

/-- The remainder of `x / y` with the sign of `x`. -/
def remainder (x y : Float) : Float :=
  match view x, view y with
  | .finite negative m e, .finite _ n f =>
    if n = 0 then nan
    else
      let k := min e f
      ofScaled negative (m * pow2 (e - k).toNat % (n * pow2 (f - k).toNat)) k
  | .finite .., .infinite _ => x
  | _, _ => nan

/-- A whole number that is odd. -/
def isOdd (x : Float) : Bool :=
  match view x with
  | .finite _ m e =>
    if e > 0 then false
    else
      let unit := pow2 (-e).toNat
      m % unit == 0 && m / unit % 2 == 1
  | _ => false

/-- Multiplies the bits of a whole exponent into `product · 2 ^ scale`, where `base · 2 ^ shift` is
the power that the lowest bit stands for. -/
def multiplyBits : Nat → Nat → Float → Int → Float → Int → Float × Int
  | 0, _, product, scale, _, _ => (product, scale)
  | fuel + 1, bits, product, scale, base, shift =>
    if bits = 0 then (product, scale)
    else if shift < -4096 ∨ 4096 < shift then (product, scale + shift)
    else
      let (product, scale) :=
        if bits % 2 = 1 then (product * base, scale + shift) else (product, scale)
      let base := base * base
      let shift := shift * 2
      let (base, shift) := if base < 0.5 then (base + base, shift - 1) else (base, shift)
      multiplyBits fuel (bits / 2) product scale base shift

/-- The power of a finite base other than zero and one to a finite exponent. -/
def finitePower (x y : Float) : Float :=
  let size := y.abs
  let whole := truncate size
  let part := size - whole
  if part != 0 && x < 0 then nan
  else if whole ≥ 9223372036854775808 then
    if x == -1 then 1
    else if (x.abs < 1) == (y > 0) then 0
    else infinity false
  else
    let (part, whole) := if part > 0.5 then (part - 1, whole + 1) else (part, whole)
    let start := if part != 0 then exp (part * log x) else 1
    let (base, shift) := normalized x
    let (product, exponent) := multiplyBits 64 (wholePart whole) start 0 base shift
    if y < 0 then scale (1 / product) (-exponent) else scale product exponent

/-- The power of zero, which keeps its sign under an odd exponent. -/
def zeroPower (x y : Float) : Float :=
  let signed := isNegative x && isOdd y
  if y < 0 then infinity signed else withSign signed 0

/-- The power of any base to an infinite exponent. -/
def infinitePower (x y : Float) : Float :=
  if x == -1 then 1
  else if (x.abs < 1) == (y > 0) then 0
  else infinity false

/-- The number `x` to the power `y`. -/
def power (x y : Float) : Float :=
  if y == 0 || x == 1 then 1
  else if y == 1 then x
  else if x.isNaN || y.isNaN then nan
  else if x == 0 then zeroPower x y
  else if isInfinite y then infinitePower x y
  else if isInfinite x then
    if isNegative x then zeroPower (-0.0) (-y)
    else if y < 0 then 0 else infinity false
  else if y == 0.5 then x.sqrt
  else if y == -0.5 then 1 / x.sqrt
  else finitePower x y

end Gapscript.Number
