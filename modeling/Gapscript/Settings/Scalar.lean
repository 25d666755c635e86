import Gapscript.Settings.Entry
import Gapscript.Settings.Timestamp
import Gapscript.Number.Numeral

/-!
# Plain scalars

A scalar written without quotes stands for what it looks like: nothing, a switch, an integer, a
real number, a date, or else its own text. Integers may be grouped by underscores and written in
base two, eight or sixteen, and a leading zero alone already means base eight.
-/

namespace Gapscript

/-- What a plain scalar stands for. -/
inductive Scalar where
  | null
  | switch (b : Bool)
  | integer (n : Int)
  | real (x : Float)
  | timestamp
  | text

namespace Scalar

/-- The integer that digits of a base spell. -/
def digits? (base : Nat) (t : Text) : Option Nat :=
  t.foldlM (fun n c => (Number.digit? base c).map (n * base + ·)) 0

/-- The unsigned integer with an optional mark for its base. -/
def magnitude? : Text → Option Nat
  | [] => none
  | '0' :: b :: c :: t =>
    let b := Number.foldCase b
    if b = 'x' then digits? 16 (c :: t)
    else if b = 'o' then digits? 8 (c :: t)
    else if b = 'b' then digits? 2 (c :: t)
    else digits? 8 (b :: c :: t)
  | '0' :: t => digits? 8 t
  | t => digits? 10 t

/-- The integer with an optional sign, which must fit in 64 bits; without a sign it may take up all
of them. -/
def signed? (magnitude : Text → Option Nat) : Text → Option Int
  | '-' :: t => do
    let n ← magnitude t
    if n ≤ Number.pow2 63 then some (-(n : Int)) else none
  | '+' :: t => do
    let n ← magnitude t
    if n < Number.pow2 63 then some n else none
  | t => do
    let n ← magnitude t
    if n < Number.pow2 64 then some n else none

/-- Digits of a base, of which there must be one. -/
def someDigits? (base : Nat) (t : Text) : Option Nat :=
  if t.isEmpty then none else digits? base t

/-- The integer that a text spells. A sign stands in front, or behind the mark for base two or
eight. -/
def integer? (t : Text) : Option Int :=
  (signed? magnitude? t).or <|
    match t with
    | '0' :: 'b' :: t => signed? (someDigits? 2) t
    | '0' :: 'o' :: t => signed? (someDigits? 8) t
    | _ => none

/-- A text of decimal digits, with at least one of them. -/
def isDigits (t : Text) : Bool := !t.isEmpty && t.all Char.isDigit

/-- A text without a sign in front. -/
def unsigned : Text → Text
  | '-' :: t => t
  | '+' :: t => t
  | t => t

/-- The form of a real number: digits around at most one point, then perhaps an exponent. -/
def isReal (t : Text) : Bool :=
  let t := unsigned t
  let (body, exponent) := t.span fun c => c != 'e' && c != 'E'
  let (whole, fraction) := body.span (· != '.')
  let bodyOk :=
    if whole.isEmpty then isDigits (fraction.drop 1)
    else isDigits whole && (fraction.drop 1).all Char.isDigit
  bodyOk && (exponent.isEmpty || isDigits (unsigned (exponent.drop 1)))

/-- The scalars that are words. -/
def word? (s : String) : Option Scalar :=
  if ["", "~", "null", "Null", "NULL"].contains s then some null
  else if ["true", "True", "TRUE"].contains s then some (switch true)
  else if ["false", "False", "FALSE"].contains s then some (switch false)
  else if [".nan", ".NaN", ".NAN"].contains s then some (real Number.nan)
  else if [".inf", ".Inf", ".INF", "+.inf", "+.Inf", "+.INF"].contains s then
    some (real (Number.infinity false))
  else if ["-.inf", "-.Inf", "-.INF"].contains s then some (real (Number.infinity true))
  else none

/-- A number begins with a sign or a digit. -/
def startsNumber : Text → Bool
  | c :: _ => c.isDigit || c == '+' || c == '-'
  | [] => false

/-- The layouts of dates, with a time of day or without. -/
def timestampLayouts : List Timestamp.Layout :=
  let date := Timestamp.date false
  let time := Timestamp.time false
  [date ++ .mark 'T' :: time ++ [.zone], date ++ .mark 't' :: time ++ [.zone],
    date ++ .gap :: time, date]

/-- A date, with a time of day or without. -/
def isTimestamp (t : Text) : Bool := timestampLayouts.any fun layout => Timestamp.fits layout t

/-- What a plain scalar stands for. -/
def ofText (t : Text) : Scalar :=
  match word? (String.ofList t) with
  | some s => s
  | none =>
    let plain := t.filter (· != '_')
    if isTimestamp t then timestamp
    else if startsNumber t then
      match integer? plain with
      | some n => integer n
      | none => if isReal plain then ((Number.read? plain).map real).getD text else text
    else if t.head? = some '.' then ((Number.read? t).map real).getD text
    else text

/-- The words that were once switches. -/
def oldSwitches : List (String × Bool) :=
  (["y", "Y", "yes", "Yes", "YES", "on", "On", "ON"].map (·, true)) ++
    (["n", "N", "no", "No", "NO", "off", "Off", "OFF"].map (·, false))

/-- A real number as an integer: its whole part, or the least one if that does not fit. Numbers
above the range have none. -/
def wholeOf? (x : Float) : Option Int :=
  if x ≤ Number.ofInt (Number.pow2 63) then
    let n : Int := Number.wholePart x
    let n := if Number.isNegative x then -n else n
    some (if Number.isFinite x && Number.leastWord ≤ n && n ≤ Number.greatestWord then n
      else Number.leastWord)
  else none

/-- The entry that a text makes. -/
def entryOfText (s : String) : Entry :=
  match oldSwitches.lookup s with
  | some b => .switch b
  | none => .foreign

/-- The entry that a plain scalar makes. -/
def entry (t : Text) : Entry :=
  match ofText t with
  | null => .absent
  | switch b => .switch b
  | integer n => if n ≤ Number.greatestWord then .number n else .foreign
  | real x => ((wholeOf? x).map Entry.number).getD .foreign
  | timestamp => .foreign
  | text => entryOfText (String.ofList t)

end Scalar

end Gapscript
