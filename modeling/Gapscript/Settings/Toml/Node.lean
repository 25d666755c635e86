import Gapscript.Settings.Toml.Numeral
import Gapscript.Settings.Toml.Quoted

/-!
# Values in TOML

A value is a switch, a number, a date, a text, a list in brackets or a table in braces. A list may go
on over lines and end in a comma; a table may do neither.
-/

namespace Gapscript.Toml

open Text (isGap)

/-- A key, part after part. -/
abbrev Key := List Text

/-- A value of a document. -/
inductive Node where
  | switch (b : Bool)
  | quantity (q : Quantity)
  | text (t : Text)
  | list (items : List Node)
  | table (entries : List (Key × Node))

/-! ## Layout -/

/-- What follows the space and the comment at a place; the comment ends with its line. -/
def skipComment (t : Text) : Text :=
  match t.dropWhile isGap with
  | '#' :: t => t.dropWhile fun c => !isLineEnd c
  | t => t

/-- What follows all space, comments and line ends. -/
def skipLines : (fuel : Nat) → Text → Text
  | 0, t => t
  | fuel + 1, t =>
    match skipComment t with
    | c :: t => if isLineEnd c then skipLines fuel t else c :: t
    | [] => []

/-! ## Keys -/

/-- A character of a key without quotes. -/
def isBare (c : Char) : Bool := c.isAlphanum || c == '_' || c == '-'

/-- One part of a key. -/
def keyPart (t : Text) : Option (Text × Text) :=
  match t with
  | '"' :: t => basic t
  | '\'' :: t => literal t
  | t =>
    let (k, rest) := t.span isBare
    if k.isEmpty then none else some (k, rest)

/-- A key, whose parts are divided by points. -/
def key : (fuel : Nat) → Text → Option (Key × Text)
  | 0, _ => none
  | fuel + 1, t => do
    let (k, t) ← keyPart (t.dropWhile isGap)
    match t.dropWhile isGap with
    | '.' :: t => do
      let (ks, t) ← key fuel t
      some (k :: ks, t)
    | t => some ([k], t)

/-- A key with the equals sign after it, and what follows that and any space. -/
def assigned (t : Text) : Option (Key × Text) := do
  let (k, t) ← key (t.length + 1) t
  match t with
  | '=' :: t => some (k, t.dropWhile isGap)
  | _ => none

/-! ## Values -/

/-- A switch, and what follows it. -/
def switch (t : Text) : Option (Bool × Text) :=
  let (word, rest) := t.span Char.isAlpha
  if word = "true".toList then some (true, rest)
  else if word = "false".toList then some (false, rest)
  else none

/-- A value that holds no other values, and what follows it. -/
def atom (t : Text) : Option (Node × Text) :=
  match text? t with
  | some r => r.map fun (cs, rest) => (.text cs, rest)
  | none => ((switch t).map fun (b, rest) => (Node.switch b, rest)).or <|
    (quantity t).map fun (q, rest) => (.quantity q, rest)

/-- The items of a list after its opening bracket, each read by `item`. -/
def items (item : Text → Option (Node × Text)) : (fuel : Nat) → Text → Option (List Node × Text)
  | 0, _ => none
  | fuel + 1, t =>
    match skipLines t.length t with
    | ']' :: t => some ([], t)
    | t => do
      let (x, t) ← item t
      match skipLines t.length t with
      | ',' :: t => do
        let (xs, t) ← items item fuel t
        some (x :: xs, t)
      | ']' :: t => some ([x], t)
      | _ => none

/-- The entries of a table in braces, of which there is at least one. -/
def entries (item : Text → Option (Node × Text)) :
    (fuel : Nat) → Text → Option (List (Key × Node) × Text)
  | 0, _ => none
  | fuel + 1, t => do
    let (k, t) ← assigned t
    let (v, t) ← item t
    match t.dropWhile isGap with
    | ',' :: t => do
      let (es, t) ← entries item fuel t
      some ((k, v) :: es, t)
    | '}' :: t => some ([(k, v)], t)
    | _ => none

/-- A value, nested at most `depth` deep, and what follows it. -/
def node : (depth : Nat) → Text → Option (Node × Text)
  | 0, _ => none
  | depth + 1, t =>
    match t with
    | '[' :: t => (items (node depth) (t.length + 1) t).map fun (xs, t) => (.list xs, t)
    | '{' :: t =>
      match t.dropWhile isGap with
      | '}' :: t => some (.table [], t)
      | t => (entries (node depth) (t.length + 1) t).map fun (es, t) => (.table es, t)
    | t => atom t

end Gapscript.Toml
