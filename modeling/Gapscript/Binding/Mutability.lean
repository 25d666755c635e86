/-!
# Mutability

A declaration has two keywords: the first says whether the name may be bound to another value, the
second whether the value may be modified in place.
-/

namespace Gapscript

/-- The two keywords of a declaration. -/
inductive Mutability where
  | varVar | varConst | constVar | constConst
deriving DecidableEq, Inhabited

namespace Mutability

/-- The keywords as they are written. -/
def describe : Mutability → String
  | varVar => "var var"
  | varConst => "var const"
  | constVar => "const var"
  | constConst => "const const"

/-- The name may be bound to a new value. -/
def reassignable : Mutability → Bool
  | varVar | varConst => true
  | constVar | constConst => false

/-- The value may be modified in place. -/
def editable : Mutability → Bool
  | varVar | constVar => true
  | varConst | constConst => false

/-- The mutability of two keywords, each of which is `const` or `var`. -/
def ofKeywords (nameConst valueConst : Bool) : Mutability :=
  match nameConst, valueConst with
  | false, false => varVar
  | false, true => varConst
  | true, false => constVar
  | true, true => constConst

theorem reassignable_ofKeywords (a b : Bool) : (ofKeywords a b).reassignable = !a := by
  cases a <;> cases b <;> rfl

theorem editable_ofKeywords (a b : Bool) : (ofKeywords a b).editable = !b := by
  cases a <;> cases b <;> rfl

end Mutability

end Gapscript
