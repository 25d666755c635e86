import Gapscript.Settings.Basic

/-!
# Entries of a settings file

Whatever notation a file is written in, it comes down to keys with entries. An entry that does not
fit its setting makes the whole file unusable, and a key that names no setting is passed over.
-/

namespace Gapscript

/-- What a settings file gives for a key. -/
inductive Entry where
  /-- Nothing: a switch or a number stays as it is, a list becomes empty. -/
  | absent
  | switch (b : Bool)
  | number (n : Int)
  | texts (items : List String)
  /-- Something that no setting can hold. -/
  | foreign
deriving DecidableEq, Inhabited

namespace Entry

/-- The entry for a switch that is now `b`. -/
def switchOr (b : Bool) : Entry → Option Bool
  | absent => some b
  | switch b => some b
  | _ => none

/-- The entry for a number that is now `n`. -/
def numberOr (n : Int) : Entry → Option Int
  | absent => some n
  | number n => some n
  | _ => none

/-- The entry for a list. -/
def texts? : Entry → Option (List String)
  | absent => some []
  | texts items => some items
  | _ => none

end Entry

namespace Settings

/-- The settings with one entry taken over, unless it does not fit. -/
def put (s : Settings) : String × Entry → Option Settings
  | ("debug", e) => (e.switchOr s.debug).map fun b => { s with debug := b }
  | ("log_categories", e) => e.texts?.map fun items => { s with logCategories := items }
  | ("show_error_context", e) =>
    (e.switchOr s.showErrorContext).map fun b => { s with showErrorContext := b }
  | ("context_lines", e) => (e.numberOr s.contextLines).map fun n => { s with contextLines := n }
  | ("max_scope_depth", e) => (e.numberOr s.maxScopeDepth).map fun n => { s with maxScopeDepth := n }
  | ("color", e) => (e.switchOr s.color).map fun b => { s with color := b }
  | _ => some s

/-- The settings with all entries taken over, in order. -/
def putAll (s : Settings) (entries : List (String × Entry)) : Option Settings :=
  entries.foldlM put s

end Settings

end Gapscript
