import Gapscript.Settings.Toml.Node

/-!
# Documents in TOML

A document is a sequence of `key = value` lines and of section headers in brackets. Keys with points
and headers build a tree of tables. A key is given a value once, with two exceptions: a table that so
far was only implied by a longer key may still be opened, and where the old value or the new one is a
list, the new one takes its place.
-/

namespace Gapscript.Toml

/-- What a key of a table holds: a value, a table, or a list of tables, of which only the last can
still change. -/
inductive Tree where
  | value (v : Node)
  | table (level : List (Text × Tree))
  | tables (last : List (Text × Tree))

/-- The keys of one table. -/
abbrev Level := List (Text × Tree)

/-- The table that further keys lead into. -/
def Tree.level? : Tree → Option Level
  | value _ => none
  | table level => some level
  | tables last => some last

/-- The tree with the table that further keys lead into changed. -/
def Tree.mapLevel (f : Level → Level) : Tree → Tree
  | value v => value v
  | table level => table (f level)
  | tables last => tables (f last)

namespace Level

/-- The table that a key leads to. -/
def sub? : Key → Level → Option Level
  | [], level => some level
  | k :: ks, level => do sub? ks (← (← level.lookup k).level?)

/-- The tables with the one that a key leads to changed. -/
def mapSub (f : Level → Level) : Key → Level → Level
  | [], level => f level
  | k :: ks, level =>
    level.map fun (name, tree) => (name, if name = k then tree.mapLevel (mapSub f ks) else tree)

/-- The table with a key set. -/
def set (k : Text) (tree : Tree) (level : Level) : Level :=
  if (level.lookup k).isSome then
    level.map fun (name, old) => (name, if name = k then tree else old)
  else level ++ [(k, tree)]

end Level

/-- What has been read of a document. -/
structure Document where
  root : Level := []
  /-- The section that keys belong to. -/
  context : Key := []
  /-- The tables that were only part of a longer key so far. -/
  implied : List Key := []
  /-- The keys that were last given a list. -/
  lists : List Key := []

namespace Document

/-- What a key holds in the table that another key leads to. -/
def tree? (d : Document) (parent : Key) (k : Text) : Option Tree :=
  (Level.sub? parent d.root).bind (·.lookup k)

/-- The document with a key set in the table that another key leads to. -/
def set (d : Document) (parent : Key) (k : Text) (tree : Tree) : Document :=
  { d with root := Level.mapSub (Level.set k tree) parent d.root }

/-- The document with a table marked as implied. -/
def imply (d : Document) (path : Key) : Document := { d with implied := path :: d.implied }

/-- The document with a table no longer marked as implied. -/
def settle (d : Document) (path : Key) : Document :=
  { d with implied := d.implied.filter (· != path) }

/-- The document with a key marked as holding a list or not. -/
def markList (d : Document) (path : Key) (isList : Bool) : Document :=
  { d with lists := if isList then path :: d.lists else d.lists.filter (· != path) }

/-- The document with a key set that must be new, hold a list, or be implied; what is implied stays
as it is. -/
def place (d : Document) (parent : Key) (k : Text) (tree : Tree) : Option Document := do
  let level ← Level.sub? parent d.root
  let path := parent ++ [k]
  if (level.lookup k).isNone then some (d.set parent k tree)
  else if d.lists.contains path then some ((d.set parent k tree).settle path)
  else if d.implied.contains path then some (d.settle path)
  else none

/-- The document with a table one step further down, which the key of a value runs through. -/
def pass (d : Document) (parent : Key) (k : Text) : Option Document :=
  (d.imply (parent ++ [k])).place parent k (.table [])

/-- The document with the tables that lead to a section, new ones being implied. -/
def reach (d : Document) (done : Key) : Key → Option Document
  | [] => some d
  | k :: ks =>
    match d.tree? done k with
    | none => reach ((d.set done k (.table [])).imply (done ++ [k])) (done ++ [k]) ks
    | some tree => if tree.level?.isSome then reach d (done ++ [k]) ks else none

/-- The document with one more table in a list of tables. -/
def addTable (d : Document) (parent : Key) (k : Text) : Option Document :=
  match d.tree? parent k with
  | none => some (d.set parent k (.tables []))
  | some (.tables _) => some (d.set parent k (.tables []))
  | some _ => none

/-- The document with a section opened. -/
def enter (d : Document) (path : Key) : Option Document := do
  let parent := path.dropLast
  let d ← d.reach [] parent
  let d ← d.place parent (path.getLastD []) (.table [])
  some { d.markList path false with context := path }

/-- The document with one more of a list of sections opened. -/
def enterNext (d : Document) (path : Key) : Option Document := do
  let parent := path.dropLast
  let d ← d.reach [] parent
  let d ← d.addTable parent (path.getLastD [])
  some { d.markList path false with context := path }

/-- The document within the tables that the key of a value runs through. -/
def descend (d : Document) : Key → Option Document
  | [] => some d
  | k :: ks => do
    let next ← d.pass d.context k
    descend { next with context := d.context ++ [k] } ks

/-- A list. -/
def isList : Node → Bool
  | .list _ => true
  | _ => false

mutual

/-- The document with the tables in a value added below its key. -/
def prepare (d : Document) (parent : Key) (k : Text) (inList : Bool) : Node → Option Document
  | .table entries => do
    let path := parent ++ [k]
    let inner ← if inList then (d.imply path).addTable parent k else d.pass parent k
    let inner ← assignAll { inner with context := path } entries
    some { inner with context := d.context }
  | .list items => prepareAll (d.markList (parent ++ [k]) true) parent k items
  | _ => some d
termination_by v => (sizeOf v, 0)

/-- The document with the tables in the items of a list added below its key. -/
def prepareAll (d : Document) (parent : Key) (k : Text) : List Node → Option Document
  | [] => some d
  | v :: vs => do
    let d ← prepare d parent k true v
    prepareAll d parent k vs
termination_by items => (sizeOf items, 0)

/-- The document with a value for a key of the current section. -/
def assign (d : Document) (path : Key) (v : Node) : Option Document := do
  let inner ← d.descend path.dropLast
  let parent := inner.context
  let k := path.getLastD []
  let inner ← prepare inner parent k false v
  let tree := match v with
    | .table _ => (inner.tree? parent k).getD (.table [])
    | v => .value v
  let inner ← inner.place parent k tree
  some { inner.markList (parent ++ [k]) (isList v) with context := d.context }
termination_by (sizeOf v, 1)

/-- The document with values for some keys of the current section. -/
def assignAll (d : Document) : List (Key × Node) → Option Document
  | [] => some d
  | (k, v) :: rest => do
    let d ← assign d k v
    assignAll d rest
termination_by entries => (sizeOf entries, 0)

end

/-! ## Lines -/

/-- What follows the end of a line, with a comment before it or not. -/
def endLine? (t : Text) : Option Text :=
  match skipComment t with
  | [] => some []
  | c :: t => if isLineEnd c then some t else none

/-- Reads a header after its opening bracket. -/
def header (d : Document) (t : Text) : Option (Document × Text) :=
  match t with
  | '[' :: t => do
    let (k, t) ← key (t.length + 1) t
    match t with
    | ']' :: ']' :: t => (d.enterNext k).map (·, t)
    | _ => none
  | t => do
    let (k, t) ← key (t.length + 1) t
    match t with
    | ']' :: t => (d.enter k).map (·, t)
    | _ => none

/-- Reads a key with its value. -/
def assignment (d : Document) (t : Text) : Option (Document × Text) := do
  let (k, t) ← assigned t
  let (v, t) ← node (t.length + 1) t
  (d.assign k v).map (·, t)

/-- Reads the rest of a document. -/
def readLines (d : Document) : (fuel : Nat) → Text → Option Document
  | 0, _ => none
  | fuel + 1, t =>
    match skipLines t.length t with
    | [] => some d
    | '[' :: t => do
      let (d, t) ← header d t
      readLines d fuel (← endLine? t)
    | t => do
      let (d, t) ← assignment d t
      readLines d fuel (← endLine? t)

/-- The document that a text holds. -/
def ofText (t : Text) : Option Document := readLines {} (t.length + 1) t

end Document

end Gapscript.Toml
