import Gapscript.Text.Position
import Gapscript.Binding.Mutability
import Gapscript.Operator

/-!
# Errors

Three kinds of failure. A mismatch is a failed alternative of the parser and only steers the choice
between alternatives. Text that no statement form accepts is unparsable, and everything that goes
wrong while a program runs is a runtime error. The wording of all messages is here.
-/

namespace Gapscript

/-- Why a parser did not match. -/
inductive Mismatch where
  | noMatch | emptyIdentifier | malformedLifeTime | unexpectedToken
  | other
deriving DecidableEq, Inhabited

/-- The kind of mismatch in words. -/
def Mismatch.describe : Mismatch → String
  | noMatch | other => "no match"
  | emptyIdentifier => "empty identifier"
  | malformedLifeTime => "malformed life time"
  | unexpectedToken => "unexpected token"

/-- A failed attempt to read something at a place. -/
structure ParseError where
  kind : Mismatch
  detail : String
  pos : Option Position
deriving DecidableEq, Inhabited

/-- The message of a mismatch. -/
def ParseError.message (e : ParseError) : String :=
  let detail := if e.detail = "" then "" else ": " ++ e.detail
  "parse error: " ++ e.kind.describe ++ detail ++ " at " ++ Position.describe? e.pos

/-- What a value was used for that its type does not allow. -/
inductive TypeFault where
  | readOfNull (key : String)
  | reassign (name : String) (declared : Mutability)
  | modify (name : String) (declared : Mutability)
  | setProperty (key type : String)
  | negation (type : String)
  | mixedBigint (type : String) (op : BinaryOp)
  | symbolArithmetic
  | symbolComparison
  | bigintDivisionByZero
  | bigintNegativeExponent
  | unsupported (op : BinaryOp)
  | callDepth (limit : Int)
  | raised (message : String)
deriving DecidableEq, Inhabited

/-- The misuse in words. -/
def TypeFault.message : TypeFault → String
  | readOfNull key => "CannotReadProperty: cannot read property " ++ key ++ " of null"
  | reassign name declared => "cannot reassign " ++ name ++ " declared " ++ declared.describe
  | modify name declared => "cannot modify " ++ name ++ " declared " ++ declared.describe
  | setProperty key type => "cannot set property " ++ key ++ " of " ++ type
  | negation type => "cannot negate a " ++ type
  | mixedBigint type op => "cannot mix bigint and " ++ type ++ " in " ++ op.token
  | symbolArithmetic => "cannot convert a symbol to a number"
  | symbolComparison => "cannot compare a symbol"
  | bigintDivisionByZero => "bigint division by zero"
  | bigintNegativeExponent => "bigint exponent must not be negative"
  | unsupported op => "unsupported operator " ++ op.token
  | callDepth limit => "maximum call depth exceeded (" ++ toString limit ++ ")"
  | raised message => message

/-- What went wrong while a program ran. -/
inductive Cause where
  | functionNotFound (name : String)
  | variableNotFound (name : String)
  | argumentCount (name : String) (expected got : Int)
  | type (fault : TypeFault)
  | assertion (detail : String)
  | other (message : String)
deriving DecidableEq, Inhabited

namespace Cause

/-- The name of the kind of error. -/
def kind : Cause → String
  | functionNotFound _ => "FunctionNotFound"
  | variableNotFound _ => "VariableNotFound"
  | argumentCount .. => "ArgumentCountMismatch"
  | type _ => "TypeError"
  | assertion _ => "AssertionFailed"
  | other _ => "RuntimeError"

/-- The cause in words. -/
def detail : Cause → String
  | functionNotFound name => "function not found: " ++ name
  | variableNotFound name => "variable not found: " ++ name
  | argumentCount name expected got =>
    name ++ " expects " ++ toString expected ++ " argument(s), got " ++ toString got
  | type fault => fault.message
  | assertion detail => "assertion failed" ++ (if detail = "" then "" else ": " ++ detail)
  | other message => message

end Cause

/-- An error of a running program, and where it arose once that is known. -/
structure RuntimeError where
  cause : Cause
  pos : Option Position := none
deriving DecidableEq, Inhabited

/-- The message of a runtime error. -/
def RuntimeError.message (e : RuntimeError) : String :=
  e.cause.kind ++ ": " ++ e.cause.detail

/-- Any failure of reading or running a program. `exhausted` stands for a recursion that was given
too small a budget: of nested frames, of statements or of nested expressions. -/
inductive Error where
  | mismatch (e : ParseError)
  | unparsable (e : ParseError)
  | runtime (e : RuntimeError)
  | exhausted
deriving DecidableEq, Inhabited

namespace Error

/-- The message shown for a failure. -/
def message : Error → String
  | mismatch e => e.message
  | unparsable e =>
    "could not parse remaining input at " ++ Position.describe? e.pos ++ ": " ++ e.detail
  | runtime e => e.message
  | exhausted => "budget exhausted"

/-- Where the failure arose. -/
def pos? : Error → Option Position
  | mismatch e | unparsable e => e.pos
  | runtime e => e.pos
  | exhausted => none

/-- The failure only rules out one alternative. -/
def isMismatch : Error → Bool
  | mismatch _ => true
  | _ => false

/-- The failure with the given place, if it is a runtime error without one. -/
def withPosition (pos : Option Position) : Error → Error
  | runtime ⟨cause, none⟩ => runtime ⟨cause, pos⟩
  | e => e

/-- A mismatch after which there is nothing else to try. -/
def settled : Error → Error
  | mismatch e => unparsable e
  | e => e

theorem settled_not_mismatch (e : Error) : e.settled.isMismatch = false := by
  cases e <;> rfl

/-- A type error whose place is still to be found. -/
def ofFault (fault : TypeFault) : Error := runtime ⟨.type fault, none⟩

end Error

end Gapscript
