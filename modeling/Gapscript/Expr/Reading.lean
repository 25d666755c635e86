import Gapscript.Lexical.Layout
import Gapscript.Expr.Fold
import Gapscript.Lexical.Name

/-!
# Reading against bindings

Expressions are read against the names in force. A reading notes every variable that was resolved,
once and in order, and keeps the note even where the alternative that met it fails.
-/

namespace Gapscript

/-- What names stand for while a text is read. -/
structure Names where
  value? : String → Option Value
  callee? : (strict : Bool) → String → Option FunctionRef

/-- A reading that may fail and notes the variables it resolves. -/
abbrev Reading := EStateM Error (List String)

namespace Reading

/-- The list with a name noted once. -/
def noted (names : List String) (name : String) : List String :=
  if names.contains name then names else names ++ [name]

/-- Notes a variable. -/
def note (name : String) : Reading Unit := modify fun names => noted names name

/-- A mismatch. -/
def fail {α : Type} (e : ParseError) : Reading α := throw (.mismatch e)

/-- A reading that notes nothing. -/
def ofExcept {α : Type} : Except ParseError α → Reading α
  | .ok a => pure a
  | .error e => fail e

/-- The result of a reading, or nothing if it does not match; other failures stay failures. -/
def attempt {α : Type} (p : Reading α) : Reading (Option α) := fun names =>
  match p names with
  | .ok a names => .ok (some a) names
  | .error e names => if e.isMismatch then .ok none names else .error e names

/-- The first reading that matches. -/
def firstOf {α : Type} (otherwise : ParseError) : List (Reading α) → Reading α
  | [] => fail otherwise
  | p :: ps => do
    match ← attempt p with
    | some a => pure a
    | none => firstOf otherwise ps

/-- A reading with notes of its own, which come with its result. -/
def withNotes {α : Type} (p : Reading α) : Reading (α × List String) := fun names =>
  match p [] with
  | .ok a own => .ok (a, own) names
  | .error e _ => .error e names

/-- The outcome of a reading without its notes. -/
def outcome {α : Type} (p : Reading α) : Except Error α :=
  match p [] with
  | .ok a _ => .ok a
  | .error e _ => .error e

theorem noted_of_mem {names : List String} {name : String} (h : name ∈ names) :
    noted names name = names := by
  simp [noted, h]

theorem nodup_noted {names : List String} {name : String} (h : names.Nodup) :
    (noted names name).Nodup := by
  unfold noted
  split
  · exact h
  · next hc =>
    have hc : name ∉ names := by simpa using hc
    refine List.nodup_append.2 ⟨h, by simp, ?_⟩
    intro a ha b hb
    rw [List.mem_singleton] at hb
    subst hb
    exact fun hab => hc (hab ▸ ha)

end Reading

/-- A reader of expressions. -/
abbrev ExprReader := Terminator → Cursor → Reading (Expr × Cursor)

end Gapscript
