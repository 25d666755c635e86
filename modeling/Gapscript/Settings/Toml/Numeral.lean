import Gapscript.Settings.Scalar
import Gapscript.Text.Blank

/-!
# Numbers and dates in TOML

A number or a date begins with a digit or a sign, and its first characters tell which kind it is: a
base mark, digits up to a point or an exponent, or digits up to a dash or a colon. Single underscores
may stand between digits. Only integers have a value here, since no setting holds a real number or a
date; those are checked and passed over.
-/

namespace Gapscript.Toml

/-- A number or a date. -/
inductive Quantity where
  | integer (n : Int)
  | real
  | date
deriving DecidableEq

/-- Every underscore has a digit before it and no underscore after it, and a digit ends the text. -/
def isGrouped (afterDigit : Bool) : Text → Bool
  | [] => afterDigit
  | c :: t => (c != '_' || afterDigit) && isGrouped (Number.digit? 16 c).isSome t

/-- A zero stands in front of further digits. -/
def hasLeadingZero (t : Text) : Bool :=
  match Scalar.unsigned t with
  | '0' :: _ :: _ => true
  | _ => false

/-- An integer that fits in 64 bits. -/
def fitting? (n : Int) : Option Int :=
  if Number.leastWord ≤ n ∧ n ≤ Number.greatestWord then some n else none

/-- The digits of an integer, grouped by underscores. -/
def grouped? (base : Nat) (t : Text) : Option Nat :=
  if isGrouped false t then Scalar.digits? base (t.filter (· != '_')) else none

/-- The integer in a base after the mark for the base. -/
def based (base : Nat) (t : Text) : Option (Quantity × Text) := do
  let (ds, rest) := t.span fun c => (Number.digit? base c).isSome || c == '_'
  let n ← fitting? (← grouped? base ds)
  some (.integer n, rest)

/-- The integer that decimal digits spell after a sign. -/
def decimal? (negative : Bool) (ds : Text) : Option Int := do
  let n ← if hasLeadingZero ds then none else grouped? 10 ds
  fitting? (if negative then -(n : Int) else n)

/-- Every point has a digit after it. -/
def pointsOk : Text → Bool
  | [] => true
  | '.' :: t => (t.head?.map Char.isDigit).getD false && pointsOk t
  | _ :: t => pointsOk t

/-- The form of a real number: grouped digits between points and exponent marks, without needless
zeros in front, that read as a number in range. -/
def isReal (t : Text) : Bool :=
  let parts := (t.splitOnP fun c => c == '.' || c == 'e' || c == 'E').filter fun p => !p.isEmpty
  parts.all (isGrouped false) && !hasLeadingZero (parts.headD []) && pointsOk t &&
    (Number.read? (t.filter (· != '_'))).isSome

/-- A character of a real number after its point or exponent mark. -/
def isRealChar (c : Char) : Bool :=
  c.isDigit || c == '_' || c == '.' || c == '-' || c == '+' || c == 'e' || c == 'E'

/-- A character of a date. -/
def isDateChar (c : Char) : Bool :=
  c.isDigit || ['-', ':', 'T', 't', ' ', '.', 'Z', 'z', '+'].contains c

/-- A date in upper case with its time after a `T`. -/
def canonicalDate (t : Text) : Text :=
  t.map fun c => if c = 'z' then 'Z' else if c = 't' ∨ c = ' ' then 'T' else c

/-- The layouts of dates and times of day. -/
def dateLayouts : List Timestamp.Layout :=
  let date := Timestamp.date true
  let time := Timestamp.time true
  [date ++ .mark 'T' :: time ++ [.zone], date ++ .mark 'T' :: time, date, time]

/-- The text is a date, a time of day, or both. -/
def isDate (t : Text) : Bool :=
  dateLayouts.any fun layout => Timestamp.fits layout (canonicalDate t)

/-- A date, and what follows it. -/
def date (t : Text) : Option (Quantity × Text) :=
  let (word, rest) := t.span isDateChar
  if isDate (Text.dropEnd Text.isGap word) then some (.date, rest) else none

/-- A number in base ten after its sign, and what follows it. -/
def decimal (negative : Bool) (t : Text) : Option (Quantity × Text) :=
  let (ds, rest) := t.span fun c => c.isDigit || c == '_'
  if rest.head? = some '.' ∨ rest.head? = some 'e' ∨ rest.head? = some 'E' then
    let (word, rest) := t.span isRealChar
    if isReal word then some (.real, rest) else none
  else (decimal? negative ds).map fun n => (.integer n, rest)

/-- The words for special numbers. -/
def special? : Text → Option Text
  | 'i' :: 'n' :: 'f' :: t => some t
  | 'n' :: 'a' :: 'n' :: t => some t
  | _ => none

/-- A number after its sign. -/
def signed (negative : Bool) (t : Text) : Option (Quantity × Text) :=
  match special? t with
  | some t => some (.real, t)
  | none => if (t.head?.map Char.isDigit).getD false then decimal negative t else none

/-- A number without a sign, or a date. -/
def unsigned (t : Text) : Option (Quantity × Text) :=
  let rest := t.dropWhile Char.isDigit
  if rest.head? = some '-' ∨ rest.head? = some ':' then date t else signed false t

/-- A number or a date, and what follows it. -/
def quantity : Text → Option (Quantity × Text)
  | '0' :: 'x' :: t => based 16 t
  | '0' :: 'o' :: t => based 8 t
  | '0' :: 'b' :: t => based 2 t
  | '-' :: t => signed true t
  | '+' :: t => signed false t
  | t => unsigned t

end Gapscript.Toml
