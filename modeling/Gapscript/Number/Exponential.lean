import Gapscript.Number.Binary64

/-!
# Logarithm and exponential

Both reduce their argument by powers of two and then sum a short series. `log` writes `x` as
`2 ^ k · (1 + f)` and sums a series in `f / (2 + f)`. `exp` takes out a multiple of `log 2`, divides
the rest by sixteen, sums the Taylor series of `exp x - 1`, and squares four times. Its products
are added with a single rounding, which `fusedAdd` computes on integers.
-/

namespace Gapscript.Number

/-- A finite number as a signed integer and a power of two. -/
def scaledInt (x : Float) : Int × Int :=
  match view x with
  | .finite negative m e => (if negative then -(m : Int) else m, e)
  | _ => (0, 0)

/-- The finite sum `x * y + z`, rounded once. -/
def fusedAdd (x y z : Float) : Float :=
  let (a, p) := scaledInt x
  let (b, q) := scaledInt y
  let (c, r) := scaledInt z
  let k := min (p + q) r
  let n := a * b * pow2 (p + q - k).toNat + c * pow2 (r - k).toNat
  if n = 0 then x * y + z else ofScaled (n < 0) n.natAbs k

/-- A finite number as a significand between one half and one and a power of two. -/
def normalized (x : Float) : Float × Int :=
  match view x with
  | .finite negative m e =>
    if m = 0 then (x, 0)
    else
      let size : Int := m.log2 + 1
      (ofScaled negative m (-size), size + e)
  | _ => (x, 0)

/-- The two parts of `log 2` that `log` adds up. -/
def logTwo : Float × Float := (6.93147180369123816490e-01, 1.90821492927058770002e-10)

/-- The square root of one half. -/
def rootHalf : Float := 7.07106781186547524401e-01

/-- A positive number by its fields: the fraction behind a leading one, as a significand between one
half and one, and the power of two. Below the normal range the field of the exponent is at its least
and there is no leading one, but the fraction is read as if there were. -/
def fields (x : Float) : Float × Int :=
  match view x with
  | .finite _ m e =>
    (ofScaled false (pow2 52 + m % pow2 52) (-53), if m < pow2 52 then -1022 else e + 53)
  | _ => (x, 0)

/-- The natural logarithm of a positive number in the normal range. Other positive numbers count as
the number that their fields would stand for in that range. -/
def log (x : Float) : Float :=
  let (m, e) := fields x
  let (m, e) := if m ≤ rootHalf then (m * 2, e - 1) else (m, e)
  let f := m - 1
  let k := ofInt e
  let s := f / (2 + f)
  let s2 := s * s
  let s4 := s2 * s2
  let odd := s2 * (6.666666666666735130e-01 + s4 * (2.857142874366239149e-01 +
    s4 * (1.818357216161805012e-01 + s4 * 1.479819860511658591e-01)))
  let even := s4 * (3.999999999940941908e-01 + s4 * (2.222219843214978396e-01 +
    s4 * 1.531383769920937332e-01))
  let half := 0.5 * f * f
  k * logTwo.1 - ((half - (s * (half + (odd + even)) + k * logTwo.2)) - f)

/-- The coefficients of the Taylor series of `(exp x - 1) / x`, the highest first. -/
def taylor : List Float :=
  [2.4801587301587301587e-5, 1.9841269841269841270e-4, 1.3888888888888888889e-3,
    8.3333333333333333333e-3, 4.1666666666666666667e-2, 1.6666666666666666667e-1, 0.5, 1]

/-- From `exp x - 1` to `exp (2 x) - 1`. -/
def double (y : Float) : Float := y * (2 + y)

/-- The integer nearest to a number, a tie going to the even one. -/
def nearestInt (x : Float) : Int :=
  match view x with
  | .finite negative m e =>
    let n : Int := if e ≥ 0 then m * pow2 e.toNat else roundDiv m (pow2 (-e).toNat)
    if negative then -n else n
  | _ => 0

/-- The exponential of a number within the range of finite results. -/
def exp (x : Float) : Float :=
  let k := nearestInt (x * 1.4426950408889634073599246810018920)
  let r := fusedAdd (-ofInt k) 0.69314718055966295651160180568695068359375 x
  let r := fusedAdd (-ofInt k) 0.28235290563031577122588448175013436025525412068e-12 r
  let r := r * 0.0625
  let series := match taylor with
    | c :: cs => cs.foldl (fun sum c => fusedAdd r sum c) c
    | [] => 0
  let y := double (double (double (r * series)))
  scale (fusedAdd y (2 + y) 1) k

end Gapscript.Number
