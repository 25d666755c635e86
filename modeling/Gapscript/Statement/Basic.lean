import Gapscript.Scope.State

/-!
# Statements

The nine forms of a statement. What a statement contains has already been read, so running it never
goes back to its text; only bodies are kept as text, to be read when they run.
-/

namespace Gapscript

/-- What a declaration says before its initializer. -/
structure Header where
  name : String
  mutability : Mutability
  life : LifeTime
deriving Inhabited

/-- How an assignment changes what is there. -/
inductive AssignMode where
  | plain
  | compound (op : BinaryOp)
  | step (op : BinaryOp)
deriving DecidableEq, Inhabited

/-- An assignment to a name or to a property reached from it. -/
structure Assignment where
  name : String
  accessors : List Accessor
  mode : AssignMode
  value : Option Expr
deriving Inhabited

/-- A statement; `debug` says that it ends with the mark that asks for a report of its value. -/
inductive Statement where
  | declaration (header : Header) (value : Expr) (debug : Bool)
  | assignment (a : Assignment) (debug : Bool)
  | block (body : Cursor)
  | conditional (branches : List Branch)
  | watch (branches : List Branch) (deps : List String)
  | function (fn : Function)
  | giveBack (value : Option Expr) (debug : Bool)
  | call (value : Expr) (debug : Bool)
  | expression (value : Expr) (debug : Bool)
deriving Inhabited

/-- The name of the form. -/
def Statement.form : Statement → String
  | declaration .. => "declaration"
  | assignment .. => "assignment"
  | block _ => "block"
  | conditional _ => "conditional"
  | watch .. => "when"
  | function _ => "function definition"
  | giveBack .. => "return"
  | call .. => "call"
  | expression .. => "expression"

/-- A declaration with a life before its own line, found ahead of running it. -/
structure Hoist where
  header : Header
  line : Int
  initializer : Cursor
  bound : Bool := false
deriving Inhabited

/-- The first line on which the binding exists. -/
def Hoist.visibleFrom (h : Hoist) : Int := Number.word (h.line + h.header.life.lineCount)

end Gapscript
