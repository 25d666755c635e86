import Gapscript.Text.Position

/-!
# Records

What the interpreter has to say besides a program's output. A run records everything; which records
are shown, and how, is decided later by the log they are given to.
-/

namespace Gapscript

/-- How much a record matters. -/
inductive Level where
  | trace | info | debug | notice | warn | error | fatal
deriving DecidableEq, Inhabited

/-- The part of the interpreter a record comes from; the empty name is none in particular. -/
structure Category where
  name : String
deriving DecidableEq, Inhabited

namespace Category

/-- No category in particular. -/
def none : Category := ⟨""⟩

/-- Decisions of the parser. -/
def parse : Category := ⟨"parse"⟩

/-- Statements run and shown values. -/
def statement : Category := ⟨"statement"⟩

/-- Trees of expressions. -/
def expression : Category := ⟨"expression"⟩

/-- Frames and declarations. -/
def scope : Category := ⟨"scope"⟩

/-- Watches set and fired. -/
def watch : Category := ⟨"watch"⟩

/-- Definitions, calls and results. -/
def function : Category := ⟨"function"⟩

/-- Coercions. -/
def value : Category := ⟨"value"⟩

/-- Host functions. -/
def stdlib : Category := ⟨"stdlib"⟩

/-- The interactive session. -/
def repl : Category := ⟨"repl"⟩

/-- Settings. -/
def config : Category := ⟨"config"⟩

/-- Every named category. -/
def all : List Category :=
  [parse, statement, expression, scope, watch, function, value, stdlib, repl, config]

end Category

/-- A message with the place it is about and the source lines that place lies in. -/
structure Record where
  level : Level
  category : Category := .none
  message : String
  pos : Option Position := none
  context : List String := []
deriving Inhabited

end Gapscript
