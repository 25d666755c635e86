import Gapscript.Settings.Scalar
import Gapscript.Settings.Yaml.Node

/-!
# Settings in YAML

The first document of a settings file is a table whose keys name settings, or says nothing. The same
key may not occur twice. A key `<<` stands for the entries of other tables, as far as their keys are
not there already.
-/

namespace Gapscript.Yaml

/-- A character that may occur in a document. -/
def isAllowed (c : Char) : Bool :=
  let n := c.toNat
  n == 9 || n == 10 || n == 13 || (0x20 ≤ n && n ≤ 0x7E) || n == 0x85 ||
    (0xA0 ≤ n && n ≠ 0xFFFE && n ≠ 0xFFFF)

/-! ## Scalars -/

/-- The tags that say what a scalar stands for, with what it must then look like. -/
def meanings : List (String × (Scalar → Bool)) :=
  [("!!null", fun | .null => true | _ => false),
    ("!!bool", fun | .switch _ => true | _ => false),
    ("!!int", fun | .integer _ => true | _ => false),
    ("!!float", fun | .integer _ | .real _ => true | _ => false),
    ("!!timestamp", fun | .timestamp => true | _ => false)]

/-- How a scalar is read. -/
inductive Sense where
  /-- As what it looks like. -/
  | shown
  /-- As its own text. -/
  | text
  /-- Not at all, because its tag says something else than it looks like. -/
  | none

/-- How a scalar is read, by its tag and whether it stands without quotes. -/
def senseOf (tag : Option Text) (plain : Bool) (t : Text) : Sense :=
  match tag with
  | .none => if plain then .shown else .text
  | some tag =>
    match meanings.lookup (String.ofList tag) with
    | some fits => if fits (Scalar.ofText t) then .shown else .none
    | .none => .text

/-! ## Entries -/

/-- The text of an item; an item that says nothing is left out. -/
def itemText? : Node → Option (Option String)
  | .scalar tag plain t =>
    match senseOf tag plain t with
    | .shown =>
      match Scalar.ofText t with
      | .null => some none
      | _ => some (some (String.ofList t))
    | .text => some (some (String.ofList t))
    | .none => none
  | _ => none

/-- The entry that a value makes. -/
def Node.entry : Node → Entry
  | .scalar tag plain t =>
    match senseOf tag plain t with
    | .shown => Scalar.entry t
    | .text => Scalar.entryOfText (String.ofList t)
    | .none => .foreign
  | .list items =>
    match items.mapM itemText? with
    | some texts => .texts (texts.filterMap id)
    | none => .foreign
  | .table _ => .foreign

/-- What tells the keys of a table apart. -/
def keyText : Node → Option Text
  | .scalar _ _ t => some t
  | _ => none

/-- Every key occurs once. -/
def keysDistinct (entries : List (Node × Node)) : Bool :=
  let keys := entries.map fun (k, _) => keyText k
  keys.eraseDups.length == keys.length

/-- The key stands for the entries of other tables. -/
def isMerge : Node → Bool
  | .scalar none true t => t == "<<".toList
  | _ => false

/-- The tables that a value of the key for other entries gives. -/
def mergedTables? : Node → Option (List (List (Node × Node)))
  | .table entries => some [entries]
  | .list items => items.mapM fun
    | .table entries => some entries
    | _ => none
  | _ => none

/-- The keys of a table with their values. A key that says nothing is left out. -/
def fields : (depth : Nat) → List (Node × Node) → Option (List (String × Node))
  | 0, _ => none
  | depth + 1, entries => do
    let (merges, own) := entries.partition fun (k, _) => isMerge k
    let own ← if keysDistinct entries then
        own.mapM fun (k, v) => (itemText? k).map fun name => name.map (·, v)
      else none
    let merged ← merges.mapM fun (_, v) => do (← mergedTables? v).mapM (fields depth)
    let all := own.filterMap id ++ merged.flatten.flatten
    some (all.foldl (fun fs (k, v) => if (fs.lookup k).isSome then fs else fs ++ [(k, v)]) [])

/-- The entries of a settings file, which may begin with a byte order mark. -/
def read (t : Text) : Option (List (String × Entry)) := do
  let t := if t.head? = some '\uFEFF' then t.drop 1 else t
  let document ← if t.all isAllowed then Node.ofText t else none
  match document with
  | none => some []
  | some (.table entries) =>
    (fields (t.length + 1) entries).map fun fs => fs.map fun (k, v) => (k, v.entry)
  | some node =>
    match node.entry with
    | .absent => some []
    | _ => none

end Gapscript.Yaml
