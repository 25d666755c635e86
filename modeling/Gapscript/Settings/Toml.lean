import Gapscript.Settings.Toml.Document

/-!
# Settings in TOML

The settings are the keys of a document that stand in no section; what sections hold is read but sets
nothing. Keys of settings may be written in any case.
-/

namespace Gapscript.Toml

/-- A character that may not occur in a document. A carriage return may only end a line together with
the line feed after it. -/
def hasControl : Text → Bool
  | [] => false
  | '\r' :: t => t.head? != some '\n' || hasControl t
  | c :: t => (c.toNat < 0x20 && c != '\t' && c != '\n') || c.toNat == 0x7F || hasControl t

/-- A letter of the name of a setting, in whatever form it is written. -/
def foldLetter (c : Char) : Char := if c = 'ſ' then 's' else Number.foldCase c

/-- The text of an item. -/
def itemText? : Node → Option String
  | .text t => some (String.ofList t)
  | _ => none

/-- The entry that a value makes. -/
def Node.entry : Node → Entry
  | .switch b => .switch b
  | .quantity (.integer n) => .number n
  | .list items => ((items.mapM itemText?).map Entry.texts).getD .foreign
  | _ => .foreign

/-- The entry that a key of a document makes. -/
def Tree.entry : Tree → Entry
  | .value v => v.entry
  | _ => .foreign

/-- The entries of a settings file, which may begin with a byte order mark. -/
def read (t : Text) : Option (List (String × Entry)) := do
  let t := if t.head? = some '\uFEFF' then t.drop 1 else t
  let d ← if hasControl t then none else Document.ofText t
  some (d.root.map fun (k, tree) => (String.ofList (k.map foldLetter), tree.entry))

end Gapscript.Toml
