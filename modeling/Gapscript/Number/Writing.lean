import Gapscript.Number.Shortest

/-!
# Number text

How numbers are written: positionally or with an exponent of a sign and at least two digits. A
displayed number is positional from a millionth up to 10²¹; a duration is positional from a
ten-thousandth up to a million.
-/

namespace Gapscript.Number

/-- Which decimal exponents are written positionally, and the texts of the special numbers. -/
structure Style where
  least : Int
  limit : Int
  nan : String
  positive : String
  negative : String
  signedZero : Bool

/-- Numbers as the language displays them. -/
def display : Style := ⟨-6, 21, "NaN", "Infinity", "-Infinity", false⟩

/-- Numbers of seconds and milliseconds. -/
def duration : Style := ⟨-4, 6, "NaN", "+Inf", "-Inf", true⟩

/-- Numbers that address properties: always positional. -/
def key : Style := ⟨-1100, 1100, "NaN", "+Inf", "-Inf", true⟩

/-- A decimal with all its places written out. -/
def Decimal.positional (d : Decimal) : List Char :=
  if d.digits.isEmpty then ['0']
  else if d.point ≤ 0 then '0' :: '.' :: List.replicate (-d.point).toNat '0' ++ d.digits
  else
    let n := d.point.toNat
    if d.digits.length ≤ n then d.digits ++ List.replicate (n - d.digits.length) '0'
    else d.digits.take n ++ '.' :: d.digits.drop n

/-- An exponent: a sign and at least two digits. -/
def exponentText (e : Int) : List Char :=
  let ds := Nat.toDigits 10 e.natAbs
  (if e < 0 then '-' else '+') :: List.replicate (2 - ds.length) '0' ++ ds

/-- A decimal with one digit before the point and an exponent. -/
def Decimal.scientific (d : Decimal) : List Char :=
  let body := match d.digits with
    | [] => ['0']
    | [c] => [c]
    | c :: cs => c :: '.' :: cs
  body ++ 'e' :: exponentText (d.point - 1)

/-- A number in a notation. -/
def write (f : Style) (x : Float) : String :=
  match view x with
  | .nan => f.nan
  | .infinite negative => if negative then f.negative else f.positive
  | .finite negative m e =>
    let d := shortest m e
    let e := d.point - 1
    let body :=
      if m = 0 ∨ (f.least ≤ e ∧ e < f.limit) then d.positional else d.scientific
    String.ofList (if negative && (m ≠ 0 || f.signedZero) then '-' :: body else body)

end Gapscript.Number
