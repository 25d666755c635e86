import Gapscript.Settings.Yaml.Token

/-!
# Nodes in YAML

A node is a scalar, a list or a table. Lists and tables are written as blocks or within brackets; what
is missing where a node could stand is a scalar that says nothing. A node may have a name, by which it
can be repeated, and a tag, which says what a scalar is meant to be.
-/

namespace Gapscript.Yaml

/-- A value of a document. -/
inductive Node where
  /-- A scalar, which has been written without quotes or not. -/
  | scalar (tag : Option Text) (plain : Bool) (text : Text)
  | list (items : List Node)
  | table (entries : List (Node × Node))

/-- The scalar that says nothing. -/
def Node.null : Node := .scalar none true []

/-- The tokens still to be read, and what has been declared before them. -/
structure Reader where
  tokens : List Token
  names : List (Text × Node) := []
  handles : List Text := []

/-- Reading can fail. -/
abbrev Reading := StateT Reader Option

/-- The next token. -/
def peek : Reading Token := fun r => r.tokens.head?.map (·, r)

/-- Passes the next token. -/
def pop : Reading Unit := modify fun r => { r with tokens := r.tokens.tail }

/-- A node, or nothing if one of some tokens comes next. -/
def nodeUnless (ends : List Token) (node : Reading Node) : Reading Node := do
  if ends.contains (← peek) then pure .null else node

/-! ## Names and tags -/

/-- What the handle of a standard tag stands for. -/
def standardTags : Text := "tag:yaml.org,2002:".toList

/-- A tag in its short form. -/
def shortTag (t : Text) : Text :=
  if standardTags.isPrefixOf t then "!!".toList ++ t.drop standardTags.length else t

/-- The tag that a text stands for, where a lone exclamation mark stands for none. Its handle must
have been declared. -/
def tagOf? (handles : List Text) (t : Text) : Option (Option Text) :=
  match t with
  | ['!'] => some none
  | '!' :: '<' :: t => if t.getLast? = some '>' then some (some (shortTag t.dropLast)) else none
  | '!' :: '!' :: c :: t => some (some ('!' :: '!' :: c :: t))
  | '!' :: t =>
    let name := t.takeWhile Tokens.isNameChar
    match t.dropWhile Tokens.isNameChar with
    | '!' :: _ => if handles.contains ('!' :: name ++ ['!']) then some (some ('!' :: t)) else none
    | _ => some (some ('!' :: t))
  | _ => none

/-- What stands before a node. -/
structure Properties where
  given : Bool := false
  name : Option Text := none
  tag : Option Text := none

/-- The name before a node, if there is one. -/
def nameProperty (p : Properties) : Reading Properties := do
  match ← peek with
  | .anchor name => pop; pure { p with given := true, name := some name }
  | _ => pure p

/-- The tag before a node, if there is one. -/
def tagProperty (p : Properties) : Reading Properties := do
  match ← peek with
  | .tag t =>
    pop
    match tagOf? (← get).handles t with
    | some tag => pure { p with given := true, tag := tag }
    | none => failure
  | _ => pure p

/-- What stands before a node: a name, a tag, or both in any order. -/
def properties : Reading Properties := do
  let p ← nameProperty {}
  let p ← tagProperty p
  if p.name.isSome then pure p else nameProperty p

/-- The node that a name was given to. -/
def named (name : Text) : Reading Node := do
  match (← get).names.lookup name with
  | some node => pure node
  | none => failure

/-- Gives a node its name. -/
def Properties.record (p : Properties) (node : Node) : Reading Node := do
  match p.name with
  | some name => modify fun r => { r with names := (name, node) :: r.names }
  | none => pure ()
  pure node

/-! ## Nodes -/

mutual

/-- A node. Blocks may begin only outside of brackets, and a list without indentation only as the
value of a key. -/
def node : (fuel : Nat) → (inBlock indentless : Bool) → Reading Node
  | 0, _, _ => failure
  | fuel + 1, inBlock, indentless => do
    match ← peek with
    | .alias name => pop; named name
    | _ =>
      let p ← properties
      let n ← content fuel inBlock indentless p
      p.record n

/-- A node after what stands before it. -/
def content : (fuel : Nat) → (inBlock indentless : Bool) → Properties → Reading Node
  | 0, _, _, _ => failure
  | fuel + 1, inBlock, indentless, p => do
    match ← peek, inBlock, indentless with
    | .dash, _, true => .list <$> indentlessItems fuel
    | .scalar plain text, _, _ => pop; pure (.scalar p.tag plain text)
    | .openList, _, _ => pop; .list <$> flowItems fuel true
    | .openTable, _, _ => pop; .table <$> flowEntries fuel true
    | .openBlockList, true, _ => pop; .list <$> blockItems fuel
    | .openBlockTable, true, _ => pop; .table <$> blockEntries fuel
    | _, _, _ => if p.given then pure (.scalar p.tag true []) else failure

/-- The items of a list in a block. -/
def blockItems : (fuel : Nat) → Reading (List Node)
  | 0 => failure
  | fuel + 1 => do
    match ← peek with
    | .dash =>
      pop
      let x ← nodeUnless [.dash, .closeBlock] (node fuel true false)
      (x :: ·) <$> blockItems fuel
    | .closeBlock => pop; pure []
    | _ => failure

/-- The items of a list that is not indented further than its key. -/
def indentlessItems : (fuel : Nat) → Reading (List Node)
  | 0 => failure
  | fuel + 1 => do
    match ← peek with
    | .dash =>
      pop
      let x ← nodeUnless [.dash, .key, .value, .closeBlock] (node fuel true false)
      (x :: ·) <$> indentlessItems fuel
    | _ => pure []

/-- The entries of a table in a block. -/
def blockEntries : (fuel : Nat) → Reading (List (Node × Node))
  | 0 => failure
  | fuel + 1 => do
    match ← peek with
    | .key =>
      pop
      let k ← nodeUnless [.key, .value, .closeBlock] (node fuel true true)
      let v ← entryValue fuel true [.key, .value, .closeBlock]
      ((k, v) :: ·) <$> blockEntries fuel
    | .closeBlock => pop; pure []
    | _ => failure

/-- The value of a key, if there is one before some tokens. -/
def entryValue : (fuel : Nat) → (inBlock : Bool) → (ends : List Token) → Reading Node
  | 0, _, _ => failure
  | fuel + 1, inBlock, ends => do
    match ← peek with
    | .value => pop; nodeUnless ends (node fuel inBlock inBlock)
    | _ => pure .null

/-- The items of a list in brackets. An item may be a table of one entry without braces. -/
def flowItems : (fuel : Nat) → (first : Bool) → Reading (List Node)
  | 0, _ => failure
  | fuel + 1, first => do
    match ← peek, first with
    | .closeList, _ => pop; pure []
    | .comma, false => pop; flowItem fuel
    | _, true => flowItem fuel
    | _, false => failure

/-- An item of a list in brackets, with those after it. -/
def flowItem : (fuel : Nat) → Reading (List Node)
  | 0 => failure
  | fuel + 1 => do
    match ← peek with
    | .closeList => pop; pure []
    | .key =>
      pop
      let k ← pairKey fuel
      let v ← entryValue fuel false [.comma, .closeList]
      (.table [(k, v)] :: ·) <$> flowItems fuel false
    | _ =>
      let x ← node fuel false false
      (x :: ·) <$> flowItems fuel false

/-- The key of a table without braces. Where it is missing, the token that comes instead is passed
over. -/
def pairKey : (fuel : Nat) → Reading Node
  | 0 => failure
  | fuel + 1 => do
    if [.value, .comma, .closeList].contains (← peek) then pop; pure .null else node fuel false false

/-- The entries of a table in braces. -/
def flowEntries : (fuel : Nat) → (first : Bool) → Reading (List (Node × Node))
  | 0, _ => failure
  | fuel + 1, first => do
    match ← peek, first with
    | .closeTable, _ => pop; pure []
    | .comma, false => pop; flowEntry fuel
    | _, true => flowEntry fuel
    | _, false => failure

/-- An entry of a table in braces, with those after it. -/
def flowEntry : (fuel : Nat) → Reading (List (Node × Node))
  | 0 => failure
  | fuel + 1 => do
    match ← peek with
    | .closeTable => pop; pure []
    | .key =>
      pop
      let k ← nodeUnless [.value, .comma, .closeTable] (node fuel false false)
      let v ← entryValue fuel false [.comma, .closeTable]
      ((k, v) :: ·) <$> flowEntries fuel false
    | _ =>
      let k ← node fuel false false
      ((k, .null) :: ·) <$> flowEntries fuel false

end

/-! ## Documents -/

/-- The directives before a document, each given once. -/
def directives : (fuel : Nat) → (versioned : Bool) → Reading Unit
  | 0, _ => failure
  | fuel + 1, versioned => do
    match ← peek with
    | .version known =>
      pop
      if known && !versioned then directives fuel true else failure
    | .handle name =>
      pop
      if (← get).handles.contains name then failure
      modify fun r => { r with handles := name :: r.handles }
      directives fuel versioned
    | _ => pure ()

/-- A document that is marked as such, with directives before the mark or not. -/
def markedDocument (fuel : Nat) : Reading Node := do
  directives fuel false
  match ← peek with
  | .documentStart =>
    pop
    match ← peek with
    | .version _ | .handle _ => pure .null
    | _ => nodeUnless [.documentStart, .documentEnd, .textEnd] (node fuel true false)
  | _ => failure

/-- The first document, if there is one. What comes after it is not read, but it must not be part of
the document. -/
def firstDocument (fuel : Nat) : Reading (Option Node) := do
  match ← peek with
  | .textEnd => pure none
  | .version _ | .handle _ | .documentStart =>
    let n ← markedDocument fuel
    let _ ← peek
    pure (some n)
  | _ =>
    let n ← node fuel true false
    let _ ← peek
    pure (some n)

/-- The first document of a text: a failure, no document, or its node. -/
def Node.ofText (t : Text) : Option (Option Node) :=
  let tokens := Tokens.ofText t
  (firstDocument (3 * tokens.length + 3) { tokens := tokens }).map (·.1)

end Gapscript.Yaml
