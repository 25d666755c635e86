import Gapscript.Text.Cursor

/-!
# Values

Scalars are plain data. Objects, functions and symbols have an identity: an object is a place in
the heap, a function or symbol carries the number it was created under.
-/

namespace Gapscript

/-- What a call of a function runs: source text kept for parsing at each call, or a handler of the
host, found by its place in the list of handlers. -/
inductive Body where
  | script (text : Text) (pos : Position) (block : Bool)
  | native (slot arity : Nat)
deriving DecidableEq, Inhabited

/-- A function as it was written. -/
structure Function where
  name : String := ""
  params : List String := []
  body : Body
  line : Int := 0
deriving DecidableEq, Inhabited

namespace Function

/-- The number of arguments a call must supply. -/
def arity (f : Function) : Nat :=
  match f.body with
  | .native _ n => n
  | .script .. => f.params.length

/-- The function is provided by the host. -/
def isNative (f : Function) : Bool :=
  match f.body with
  | .native .. => true
  | .script .. => false

/-- The body is a block of statements. -/
def isBlock (f : Function) : Bool :=
  match f.body with
  | .script _ _ block => block
  | .native .. => false

/-- The function as it is displayed. -/
def describe (f : Function) : String :=
  if f.name = "" then "[function]" else "[function " ++ f.name ++ "]"

end Function

/-- A function with its identity. -/
structure FunctionRef where
  id : Nat
  code : Function
deriving DecidableEq, Inhabited

/-- A symbol with its identity. -/
structure Symbol where
  id : Nat
  description : String
deriving DecidableEq, Inhabited

/-- A value of the language. -/
inductive Value where
  | undefined
  | null
  | boolean (b : Bool)
  | number (x : Float)
  | bigint (n : Int)
  | string (s : String)
  | symbol (s : Symbol)
  | object (ref : Nat)
  | function (f : FunctionRef)
deriving Inhabited

/-- The types of values. -/
inductive Kind where
  | undefined | null | boolean | number | bigint | string | symbol | object | function
deriving DecidableEq, Inhabited

/-- The name of a type. -/
def Kind.describe : Kind → String
  | undefined => "undefined"
  | null => "null"
  | boolean => "boolean"
  | number => "number"
  | bigint => "bigint"
  | string => "string"
  | symbol => "symbol"
  | object => "object"
  | function => "function"

namespace Value

/-- The type of a value. -/
def kind : Value → Kind
  | undefined => .undefined
  | null => .null
  | boolean _ => .boolean
  | number _ => .number
  | bigint _ => .bigint
  | string _ => .string
  | symbol _ => .symbol
  | object _ => .object
  | function _ => .function

/-- The name of a value's type. -/
def typeName (v : Value) : String := v.kind.describe

/-- The value is compared by identity. -/
def isReference (v : Value) : Bool :=
  match v with
  | object _ | function _ | symbol _ => true
  | _ => false

/-- The value is `null` or `undefined`. -/
def isNullish (v : Value) : Bool :=
  match v with
  | null | undefined => true
  | _ => false

end Value

end Gapscript
