import Gapscript.Report.Record
import Gapscript.Text.Blank
import Gapscript.Text.LetterCase
import Gapscript.Text.Quoted

/-!
# Settings

What a user can set, with its defaults.
-/

namespace Gapscript

/-- The settings of an interpreter. -/
structure Settings where
  debug : Bool := false
  logCategories : List String := []
  showErrorContext : Bool := true
  contextLines : Int := 1
  maxScopeDepth : Int := 10000
  color : Bool := true
deriving DecidableEq, Inhabited

/-- The categories that some names stand for, after those already found. Case and white space
around a name do not matter, blank names are skipped, and `all` stands for every category. -/
def categoriesFrom (found : List Category) : List String → Except String (List Category)
  | [] => .ok found
  | name :: rest =>
    let name := Text.lower (Text.trimString name)
    if name = "" then categoriesFrom found rest
    else if name = "all" then .ok Category.all
    else if Category.all.contains ⟨name⟩ then categoriesFrom (found ++ [⟨name⟩]) rest
    else .error ("unknown log category " ++ Text.quote name)

/-- The categories named in the settings. -/
def Settings.categories (s : Settings) : Except String (List Category) :=
  categoriesFrom [] s.logCategories

end Gapscript
