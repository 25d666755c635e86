import Gapscript.Text.Blank

/-!
# Timestamps

A layout says how a date or a time is written, field after field. A text has a layout if its fields
are all there, lie within their ranges, and the day exists in its month.
-/

namespace Gapscript.Timestamp

/-- A part of a layout. A padded number has two digits, another one or two. -/
inductive Field where
  | year
  | month (padded : Bool)
  | day (padded : Bool)
  | hour (padded : Bool)
  | minute (padded : Bool)
  | second (padded : Bool)
  /-- A decimal fraction, which may be missing. -/
  | fraction
  /-- `Z` or an offset in hours and minutes. -/
  | zone
  | mark (c : Char)
  /-- At least one space. -/
  | gap

/-- A layout, field after field. -/
abbrev Layout := List Field

/-- The date that has been read, from a year in which every day of every month exists. -/
structure Date where
  year : Nat := 2000
  month : Nat := 1
  day : Nat := 1

/-- A year with a day between the end of February and March. -/
def isLeap (year : Nat) : Bool := year % 4 == 0 && (year % 100 != 0 || year % 400 == 0)

/-- The days of a month. -/
def daysIn (year month : Nat) : Nat :=
  if month == 2 then if isLeap year then 29 else 28
  else if month == 4 || month == 6 || month == 9 || month == 11 then 30
  else 31

/-- The day exists in its month. -/
def Date.isOnCalendar (d : Date) : Bool := 1 ≤ d.day && d.day ≤ daysIn d.year d.month

/-- The value of a decimal digit. -/
def digit? (c : Char) : Option Nat := if c.isDigit then some (c.toNat - 48) else none

/-- A number of two digits, or of one if it need not be padded. -/
def number (padded : Bool) : Text → Option (Nat × Text)
  | a :: b :: t => do
    let x ← digit? a
    match digit? b with
    | some y => some (10 * x + y, t)
    | none => if padded then none else some (x, b :: t)
  | [a] => do
    let x ← digit? a
    if padded then none else some (x, [])
  | [] => none

/-- A number below a bound. -/
def below (bound : Nat) (padded : Bool) (t : Text) : Option Text := do
  let (n, t) ← number padded t
  if n < bound then some t else none

/-- What follows a fraction, if there is one. -/
def skipFraction : Text → Text
  | c :: d :: t => if (c == '.' || c == ',') && d.isDigit then t.dropWhile Char.isDigit else c :: d :: t
  | t => t

/-- What follows a zone. -/
def skipZone : Text → Option Text
  | 'Z' :: t => some t
  | c :: t => do
    let t ← if c == '+' || c == '-' then below 25 true t else none
    match t with
    | ':' :: t => below 61 true t
    | _ => none
  | [] => none

/-- Reads one field. -/
def Field.read (d : Date) : Field → Text → Option (Date × Text)
  | year, a :: b :: c :: e :: t => do
    let y ← [a, b, c, e].foldlM (fun n c => (digit? c).map (10 * n + ·)) 0
    some ({ d with year := y }, t)
  | year, _ => none
  | month padded, t => do
    let (n, t) ← number padded t
    if 1 ≤ n ∧ n ≤ 12 then some ({ d with month := n }, t) else none
  | day padded, t => (number padded t).map fun (n, t) => ({ d with day := n }, t)
  | hour padded, t => (below 24 padded t).map (d, ·)
  | minute padded, t => (below 60 padded t).map (d, ·)
  | second padded, t => (below 60 padded t).map (d, ·)
  | fraction, t => some (d, skipFraction t)
  | zone, t => (skipZone t).map (d, ·)
  | mark c, e :: t => if c = e then some (d, t) else none
  | mark _, [] => none
  | gap, ' ' :: t => some (d, t.dropWhile (· == ' '))
  | gap, _ => none

/-- The text has the layout, from its beginning to its end. -/
def fits (layout : Layout) (t : Text) : Bool :=
  match layout.foldlM (fun (d, t) field => Field.read d field t) (({} : Date), t) with
  | some (d, []) => d.isOnCalendar
  | _ => false

/-- A date whose numbers are padded or not. -/
def date (padded : Bool) : Layout :=
  [.year, .mark '-', .month padded, .mark '-', .day padded]

/-- A time of day whose numbers are padded or not. -/
def time (padded : Bool) : Layout :=
  [.hour padded, .mark ':', .minute padded, .mark ':', .second padded, .fraction]

end Gapscript.Timestamp
