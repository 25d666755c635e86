import Gapscript.Run.Monad
import Gapscript.Expr.Parser

/-!
# Evaluating expressions

Evaluation follows the tree. A call enters a new frame; what runs there is reached through `Inner`,
so everything at one depth of frames is defined from what runs one frame deeper.
-/

namespace Gapscript

/-- What runs one frame deeper: statements, which may give back a value, and expressions. -/
structure Inner where
  statements : (collect : Bool) → Cursor → Run (Option Value)
  expression : Expr → Run Value

/-- Binds parameters to arguments. -/
def bindParams : List String → List Value → State → State
  | p :: ps, v :: vs, s => bindParams ps vs (s.declare p v .varVar .forever)
  | _, _, s => s

/-- Runs the body of a function in the frame entered for it. -/
def runBody (inner : Inner) (text : Text) (pos : Position) (block : Bool) : Run Value := do
  if block then
    let result ← inner.statements false ⟨text, pos⟩
    pure (result.getD .undefined)
  else
    let e ← Run.read fun names => fullExpression names ⟨text, pos⟩
    inner.expression e

/-- Calls a function. A function written in the language runs in a new frame on top of those of its
caller, so free names in its body mean what they mean where it is called. -/
def callFunction (host : Host) (inner : Inner) (fn : FunctionRef) (args : List Value)
    (pos : Option Position) : Run Value := do
  let code := fn.code
  if args.length ≠ code.arity then
    throw (.runtime ⟨.argumentCount code.name code.arity args.length, pos⟩)
  match code.body with
  | .native slot _ =>
    Run.debug .function
      ("calling native " ++ code.name ++ " with " ++ toString args.length ++ " argument(s)")
    match host.functions[slot]? with
    | some f => Run.locate pos (f.handler ⟨args, pos⟩)
    | none => pure .undefined
  | .script text bodyPos block =>
    Run.debug .function
      ("calling " ++ code.describe ++ " (defined on line " ++ toString code.line ++ ")")
    Run.inFrame pos do
      modify (bindParams code.params args)
      runBody inner text bodyPos block

section Eval

variable (host : Host) (inner : Inner)

mutual

/-- The value of an expression. -/
def eval : Expr → Run Value
  | .atom base accs pos => do
    let v ← Run.locate (some pos) (evalBase base)
    evalAccessors pos v accs
  | .unary op e => do
    let v ← eval e
    Run.ofFault (Heap.unary op v)
  | .binary op l r => do
    let a ← eval l
    match op, a.toBoolean with
    | .and, false => pure a
    | .or, true => pure a
    | _, _ =>
      let b ← eval r
      let s ← get
      Run.ofFault (s.heap.binary op a b)

/-- The values of some expressions, from left to right. -/
def evalAll : List Expr → Run (List Value)
  | [] => pure []
  | e :: es => do
    let v ← eval e
    let vs ← evalAll es
    pure (v :: vs)

/-- The value of a base. -/
def evalBase : Base → Run Value
  | .literal v _ => pure v
  | .name _ v => pure v
  | .call _ fn args pos => do
    let vs ← evalAll args
    callFunction host inner fn vs (some pos)
  | .object keys values => do
    let vs ← evalAll values
    modifyGet fun s =>
      s.newObject ((keys.zip vs).foldl (fun o (k, v) => o.set k v) {})
  | .array elements => do
    let vs ← evalAll elements
    modifyGet fun s => s.newObject (Object.ofElements vs)
  | .function fn =>
    modifyGet fun s =>
      let (f, s) := s.newFunction fn
      (.function f, s)

/-- Reads properties off a value, one after the other. -/
def evalAccessors (pos : Position) (v : Value) : List Accessor → Run Value
  | [] => pure v
  | acc :: accs => do
    let key ← evalKey acc
    let s ← get
    let v ← Run.locate (some pos) (Run.ofFault (s.heap.readProperty v key))
    evalAccessors pos v accs

/-- The property key of an accessor. -/
def evalKey : Accessor → Run String
  | .dot name => pure name
  | .index e => do
    let v ← eval e
    let s ← get
    pure (s.heap.propertyKey v)

end

end Eval

end Gapscript
