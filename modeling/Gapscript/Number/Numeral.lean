import Gapscript.Number.Binary64

/-!
# Numerals

Reading a number. A numeral is an optional sign and a decimal with an optional fraction and
exponent, or a hexadecimal one whose exponent is a power of two and may not be missing, or one of
the words for infinity and NaN in any case. Digits may be grouped by single underscores. A numeral
too large for a finite number is refused, one too small reads as zero.
-/

namespace Gapscript.Number

/-- An ASCII letter in lower case. -/
def foldCase (c : Char) : Char :=
  if 'A' ≤ c ∧ c ≤ 'Z' then Char.ofNat (c.toNat + 32) else c

/-- The value of a digit in the given base, up to sixteen. -/
def digit? (base : Nat) (c : Char) : Option Nat :=
  let c := foldCase c
  let v := if '0' ≤ c ∧ c ≤ '9' then c.toNat - 48 else if 'a' ≤ c ∧ c ≤ 'f' then c.toNat - 87 else 16
  if v < base then some v else none

/-- The digits of a numeral: their value, how many of them follow the point, and whether a digit
and a point were read at all. -/
structure Significand where
  value : Nat := 0
  places : Nat := 0
  sawDigit : Bool := false
  sawPoint : Bool := false

/-- Reads digits, one point and underscores. -/
def readSignificand (base : Nat) (s : Significand) : List Char → Significand × List Char
  | [] => (s, [])
  | c :: cs =>
    if c = '_' then readSignificand base s cs
    else if c = '.' then
      if s.sawPoint then (s, c :: cs) else readSignificand base { s with sawPoint := true } cs
    else match digit? base c with
      | some v =>
        readSignificand base
          { s with
            value := s.value * base + v
            places := if s.sawPoint then s.places + 1 else s.places
            sawDigit := true } cs
      | none => (s, c :: cs)

/-- Reads the digits of an exponent; large ones stay large without being exact. -/
def readExponentDigits (e : Nat) : List Char → Nat × List Char
  | [] => (e, [])
  | c :: cs =>
    if c = '_' then readExponentDigits e cs
    else match digit? 10 c with
      | some v => readExponentDigits (if e < 10000 then e * 10 + v else e) cs
      | none => (e, c :: cs)

/-- Reads an exponent after its mark: an optional sign and at least one digit. -/
def readExponent (cs : List Char) : Option (Int × List Char) :=
  let (negative, ds) := match cs with
    | '+' :: ds => (false, ds)
    | '-' :: ds => (true, ds)
    | ds => (false, ds)
  match ds with
  | c :: _ =>
    if (digit? 10 c).isSome then
      let (e, rest) := readExponentDigits 0 ds
      some (if negative then -(e : Int) else e, rest)
    else none
  | [] => none

/-- What the last character was, for the grouping of digits. -/
inductive Grouping where
  | start | digit | underscore | other
deriving DecidableEq

/-- Underscores stand only between digits. -/
def groupingOk (hexadecimal : Bool) : Grouping → List Char → Bool
  | last, [] => last != .underscore
  | last, c :: cs =>
    if (digit? (if hexadecimal then 16 else 10) c).isSome then groupingOk hexadecimal .digit cs
    else if c = '_' then last == .digit && groupingOk hexadecimal .underscore cs
    else last != .underscore && groupingOk hexadecimal .other cs

/-- The digits of an unsigned numeral are grouped correctly; a base mark counts as a digit. -/
def wellGrouped : List Char → Bool
  | '0' :: b :: cs =>
    let b := foldCase b
    if b = 'x' then groupingOk true .digit cs
    else if b = 'b' ∨ b = 'o' then groupingOk false .digit cs
    else groupingOk false .start ('0' :: b :: cs)
  | cs => groupingOk false .start cs

/-- The number of decimal digits of an integer, up to one. -/
def decimalSize (n : Nat) : Int := (n.log2 : Int) * 30103 / 100000

/-- The number nearest to `n · 10 ^ e`, refused if it is out of range. -/
def ofDecimal? (n : Nat) (e : Int) : Option Float :=
  if n = 0 then some (Float.ofBits 0)
  else if decimalSize n + e > 320 then none
  else if decimalSize n + e < -400 then some (Float.ofBits 0)
  else ofRatio? (n * pow10 e.toNat) (pow10 (-e).toNat)

/-- The number nearest to `n · 2 ^ e`, refused if it is out of range. -/
def ofBinary? (n : Nat) (e : Int) : Option Float :=
  let x := ofScaled false n e
  if isFinite x then some x else none

/-- Reads an unsigned decimal or hexadecimal numeral that spans the text. -/
def readMagnitude (cs : List Char) : Option Float :=
  let (hexadecimal, ds) := match cs with
    | '0' :: b :: d :: rest => if foldCase b = 'x' then (true, d :: rest) else (false, cs)
    | _ => (false, cs)
  let (s, rest) := readSignificand (if hexadecimal then 16 else 10) {} ds
  if !s.sawDigit then none
  else
    let mark := if hexadecimal then 'p' else 'e'
    let tail : Option (Int × List Char) := match rest with
      | c :: more => if foldCase c = mark then readExponent more else none
      | [] => if hexadecimal then none else some (0, [])
    match tail with
    | some (e, []) =>
      if !wellGrouped cs then none
      else if hexadecimal then ofBinary? s.value (e - 4 * s.places)
      else ofDecimal? s.value (e - s.places)
    | _ => none

/-- The words for special numbers, in any case. -/
def readWord (negative signed : Bool) (cs : List Char) : Option Float :=
  let word := String.ofList (cs.map foldCase)
  if word = "inf" ∨ word = "infinity" then some (infinity negative)
  else if word = "nan" ∧ !signed then some nan
  else none

/-- The number a text spells, if the whole text is a numeral. -/
def read? (text : List Char) : Option Float :=
  let (signed, negative, cs) := match text with
    | '+' :: cs => (true, false, cs)
    | '-' :: cs => (true, true, cs)
    | cs => (false, false, cs)
  match readWord negative signed cs with
  | some x => some x
  | none => (readMagnitude cs).map (withSign negative)

/-- The least integer of 64 bits. -/
def leastWord : Int := -9223372036854775808

/-- The greatest integer of 64 bits. -/
def greatestWord : Int := 9223372036854775807

/-- An integer reduced to 64 bits with a sign. -/
def word (n : Int) : Int := Int.bmod n (pow2 64)

/-- The integer that decimal digits spell. -/
def ofDigits (cs : List Char) : Nat :=
  cs.foldl (fun n c => n * 10 + (c.toNat - 48)) 0

/-- Reads an optionally signed integer of 64 bits in decimal digits. -/
def readInteger? (text : List Char) : Option Int :=
  let (negative, cs) := match text with
    | '+' :: cs => (false, cs)
    | '-' :: cs => (true, cs)
    | cs => (false, cs)
  if cs.isEmpty || !cs.all Char.isDigit then none
  else
    let n : Int := ofDigits cs
    let n := if negative then -n else n
    if leastWord ≤ n ∧ n ≤ greatestWord then some n else none

end Gapscript.Number
