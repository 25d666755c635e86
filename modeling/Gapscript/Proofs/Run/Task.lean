import Gapscript.Proofs.Reading.Placed
import Gapscript.Proofs.Run.Bindings
import Gapscript.Proofs.Run.Turns
import Gapscript.Proofs.Session.Located

/-!
# What a run comes to

A `Task` is something that the interpreter does in a state, with room for so many frames: it evaluates a
tree, calls a function, runs statements. `Starts` relates it to each task that it comes to on the way, in the
state that all it did before has left behind, so the tasks that a run comes to are those that its first task
leads to. `Raises` lists the failures that begin with a task, each with the cursor over the text that has the
failure. Nothing is caught: where a task comes to another one that fails with a place, it fails with this
failure itself, unless the frame of a body in between cannot be left (`Starts.breaks`, `Raises.breaks`).
-/

namespace Gapscript

open Reading

/-! ## Tasks -/

/-- What the interpreter does. Trees come with the text that they were read from. -/
inductive Job where
  | evaluate (o : Origin) (e : Expr)
  | call (fn : FunctionRef) (args : List Value) (d : Cursor)
  | whole (c : Cursor)
  | block (collect : Bool) (body : Cursor)
  | branches (collect : Bool) (origin : Guard → Origin) (bs : List Branch)
  | statement (collect : Bool) (c : Cursor)
  | initializer (h : Hoist)
  | statements (collect : Bool) (c : Cursor)
  | look
  | fire (i : Nat) (w : Watch)
  | input (o : Origin) (e : Expr)

/-- A job in a state, with room for so many frames: the one it runs in and those nested in it. -/
structure Task where
  room : Nat
  job : Job
  state : State

/-! ## Parts of jobs -/

/-- The trees of a base, in the order in which they are evaluated. -/
def Base.operands : Base → List Expr
  | .call _ _ args _ => args
  | .object _ values => values
  | .array elements => elements
  | _ => []

/-- The tree that the statement evaluates before anything else. -/
def Statement.value? : Statement → Option Expr
  | .declaration h value _ => if h.life.isHoisted then none else some value
  | .assignment a _ => a.value
  | .giveBack value _ => value
  | .call value _ => some value
  | .expression value _ => some value
  | _ => none

/-- The state with the line of the cursor. -/
abbrev State.onLine (s : State) (c : Cursor) : State := { s with line := c.pos.line }

/-- What the statement under the cursor is read from. -/
abbrev State.origin (s : State) (c : Cursor) : Origin := ⟨(s.onLine c).names, c⟩

/-- The state with a record of the call of a function. -/
def Function.announced (code : Function) (s : State) : State :=
  s.record
    { level := .debug, category := .function
      message := "calling " ++ code.describe ++ " (defined on line " ++ toString code.line ++ ")" }

/-- The state in which the body of a function starts. -/
def Function.entry (code : Function) (args : List Value) (s : State) : Except TypeFault State :=
  (code.announced s).push.map (bindParams code.params args)

/-- The state in which a function of the host is called. -/
def Function.handing (code : Function) (args : List Value) (s : State) : State :=
  s.record
    { level := .debug, category := .function
      message := "calling native " ++ code.name ++ " with " ++ toString args.length ++ " argument(s)" }

/-- The state in which the statements of a block start. -/
def State.entry (s : State) : Except TypeFault State :=
  s.push.map fun t => t.record
    { level := .trace, category := .scope, message := "entered scope depth " ++ toString t.depth }

/-- The state in which a watch that fires reads its guards. -/
def State.triggered (s : State) (i : Nat) (w : Watch) : State :=
  (s.modifyWatch i fun w => { w with firing := true }).record
    { level := .debug, category := .watch, message := "watch from line " ++ toString w.line ++ " triggered" }

/-- The declaration is to be bound on the line. -/
def Hoist.Due (h : Hoist) (line : Int) : Prop := h.bound = false ∧ h.visibleFrom ≤ line ∧ line < h.line

theorem Hoist.due_of_not {h : Hoist} {line : Int} (due : ¬ (h.bound || line < h.visibleFrom || line ≥ h.line) = true) :
    h.Due line := by
  simp only [Bool.or_eq_true, decide_eq_true_eq, not_or, Bool.not_eq_true] at due
  exact ⟨due.1.1, by omega, by omega⟩

/-- Statements that are run from a state come to the one under the cursor. -/
structure Arrives (host : Host) (inner : Inner) (collect : Bool) (c : Cursor) (s : State) (p : Stage)
    (d : Cursor) : Prop where
  turns : ∃ turns, Turns host inner collect (.start c s) turns p
  here : Lexical.skipGap p.cursor = d
  more : d.atEnd = false

/-! ## Tasks within tasks -/

/-- A task comes to another one. -/
inductive Starts (host : Host) : Task → Task → Prop
  -- A tree.
  | unary {n : Nat} {o : Origin} {op : UnaryOp} {e : Expr} {s : State} :
    Starts host ⟨n + 1, .evaluate o (.unary op e), s⟩ ⟨n + 1, .evaluate o e, s⟩
  | left {n : Nat} {o : Origin} {op : BinaryOp} {l r : Expr} {s : State} :
    Starts host ⟨n + 1, .evaluate o (.binary op l r), s⟩ ⟨n + 1, .evaluate o l, s⟩
  | right {n : Nat} {o : Origin} {op : BinaryOp} {l r : Expr} {s t : State} {a : Value}
    (first : eval host (innerAt host n) l s = .ok a t) (and : op = .and → a.toBoolean = true)
    (or : op = .or → a.toBoolean = false) :
    Starts host ⟨n + 1, .evaluate o (.binary op l r), s⟩ ⟨n + 1, .evaluate o r, t⟩
  | operand {n : Nat} {o : Origin} {b : Base} {accs : List Accessor} {pos : Position} {before after : List Expr}
    {e : Expr} {vs : List Value} {s t : State} (operands : b.operands = before ++ e :: after)
    (first : evalAll host (innerAt host n) before s = .ok vs t) :
    Starts host ⟨n + 1, .evaluate o (.atom b accs pos), s⟩ ⟨n + 1, .evaluate o e, t⟩
  | index {n : Nat} {o : Origin} {b : Base} {before after : List Accessor} {pos : Position} {e : Expr} {v : Value}
    {s t : State} (first : eval host (innerAt host n) (.atom b before pos) s = .ok v t) :
    Starts host ⟨n + 1, .evaluate o (.atom b (before ++ .index e :: after) pos), s⟩ ⟨n + 1, .evaluate o e, t⟩
  | call {n : Nat} {o : Origin} {name : String} {fn : FunctionRef} {args : List Expr} {accs : List Accessor}
    {d : Cursor} {vs : List Value} {s t : State}
    (stands : o.Stands d (.atom (.call name fn args d.pos) accs d.pos))
    (first : evalAll host (innerAt host n) args s = .ok vs t) :
    Starts host ⟨n + 1, .evaluate o (.atom (.call name fn args d.pos) accs d.pos), s⟩ ⟨n + 1, .call fn vs d, t⟩
  -- The body of a function.
  | entry {n : Nat} {fn : FunctionRef} {args : List Value} {d : Cursor} {text : Text} {pos : Position} {s t : State}
    (body : fn.code.body = .script text pos true) (arity : args.length = fn.code.arity)
    (entered : fn.code.entry args s = .ok t) :
    Starts host ⟨n + 1, .call fn args d, s⟩ ⟨n, .statements false ⟨text, pos⟩, t⟩
  | whole {n : Nat} {fn : FunctionRef} {args : List Value} {d : Cursor} {text : Text} {pos : Position} {s t : State}
    (body : fn.code.body = .script text pos false) (arity : args.length = fn.code.arity)
    (entered : fn.code.entry args s = .ok t) :
    Starts host ⟨n + 1, .call fn args d, s⟩ ⟨n + 1, .whole ⟨text, pos⟩, t⟩
  | read {n : Nat} {c : Cursor} {e : Expr} {s : State} (read : (fullExpression s.names c).outcome = .ok e) :
    Starts host ⟨n + 1, .whole c, s⟩ ⟨n, .evaluate ⟨s.names, c⟩ e, s⟩
  -- Blocks and branches.
  | block {n : Nat} {collect : Bool} {body : Cursor} {s t : State} (entered : s.entry = .ok t) :
    Starts host ⟨n + 1, .block collect body, s⟩ ⟨n, .statements collect body, t⟩
  | guard {n : Nat} {collect : Bool} {origin : Guard → Origin} {b : Branch} {bs : List Branch} {g : Guard}
    {s : State} (guarded : b.guard = some g) :
    Starts host ⟨n + 1, .branches collect origin (b :: bs), s⟩ ⟨n + 1, .evaluate (origin g) g.tree, s⟩
  | taken {n : Nat} {collect : Bool} {origin : Guard → Origin} {b : Branch} {bs : List Branch} {g : Guard}
    {v : Value} {s t : State} (guarded : b.guard = some g)
    (first : eval host (innerAt host n) g.tree s = .ok v t) (holds : v.toBoolean = true) :
    Starts host ⟨n + 1, .branches collect origin (b :: bs), s⟩ ⟨n + 1, .block collect b.body, t⟩
  | passed {n : Nat} {collect : Bool} {origin : Guard → Origin} {b : Branch} {bs : List Branch} {g : Guard}
    {v : Value} {s t : State} (guarded : b.guard = some g)
    (first : eval host (innerAt host n) g.tree s = .ok v t) (fails : v.toBoolean = false) :
    Starts host ⟨n + 1, .branches collect origin (b :: bs), s⟩ ⟨n + 1, .branches collect origin bs, t⟩
  | otherwise {n : Nat} {collect : Bool} {origin : Guard → Origin} {b : Branch} {bs : List Branch} {s : State}
    (unguarded : b.guard = none) :
    Starts host ⟨n + 1, .branches collect origin (b :: bs), s⟩ ⟨n + 1, .block collect b.body, s⟩
  -- A statement.
  | value {n : Nat} {collect : Bool} {c d : Cursor} {stmt : Statement} {e : Expr} {s : State}
    (read : statement ⟨(s.onLine c).names, host.endCloses⟩ c = .ok (stmt, d)) (value : stmt.value? = some e) :
    Starts host ⟨n + 1, .statement collect c, s⟩ ⟨n + 1, .evaluate (s.origin c) e, s.onLine c⟩
  | accessor {n : Nat} {collect debug : Bool} {c d : Cursor} {a : Assignment} {before after : List Accessor}
    {e : Expr} {rhs w : Value} {v : Variable} {s t u : State}
    (read : statement ⟨(s.onLine c).names, host.endCloses⟩ c = .ok (.assignment a debug, d))
    (right : a.right host (innerAt host n) (s.onLine c) = .ok rhs t)
    (found : t.lookupVariable a.name = some v) (editable : v.mutability.editable = true)
    (accessors : a.accessors = before ++ .index e :: after)
    (first : evalAccessors host (innerAt host n) c.pos v.value before t = .ok w u) :
    Starts host ⟨n + 1, .statement collect c, s⟩ ⟨n + 1, .evaluate (s.origin c) e, u⟩
  | inner {n : Nat} {collect : Bool} {c d body : Cursor} {s : State}
    (read : statement ⟨(s.onLine c).names, host.endCloses⟩ c = .ok (.block body, d)) :
    Starts host ⟨n + 1, .statement collect c, s⟩ ⟨n + 1, .block collect body, s.onLine c⟩
  | conditional {n : Nat} {collect : Bool} {c d : Cursor} {bs : List Branch} {s : State}
    (read : statement ⟨(s.onLine c).names, host.endCloses⟩ c = .ok (.conditional bs, d)) :
    Starts host ⟨n + 1, .statement collect c, s⟩ ⟨n + 1, .branches collect (fun _ => s.origin c) bs, s.onLine c⟩
  -- Statements, one after the other.
  | statement {n : Nat} {collect : Bool} {c d : Cursor} {p : Stage} {waiting : List Hoist} {s t : State}
    (arrives : Arrives host (innerAt host n) collect c s p d)
    (bound : bindDue host (innerAt host n) p.waiting d p.state = .ok waiting t) :
    Starts host ⟨n + 1, .statements collect c, s⟩ ⟨n + 1, .statement collect d, t⟩
  | initializer {n : Nat} {collect : Bool} {c d : Cursor} {p : Stage} {before after earlier : List Hoist} {h : Hoist}
    {s t : State} (arrives : Arrives host (innerAt host n) collect c s p d) (waiting : p.waiting = before ++ h :: after)
    (due : h.Due d.pos.line)
    (first : bindHoists host (innerAt host n) d.pos.line before (p.state.onLine d) = .ok earlier t) :
    Starts host ⟨n + 1, .statements collect c, s⟩ ⟨n + 1, .initializer h, t⟩
  | look {n : Nat} {collect : Bool} {c d d' : Cursor} {p : Stage} {waiting : List Hoist} {flow : Flow}
    {s t u v : State} (arrives : Arrives host (innerAt host n) collect c s p d)
    (bound : bindDue host (innerAt host n) p.waiting d p.state = .ok waiting t)
    (ran : runStatement host (innerAt host n) collect d t = .ok (flow, d') u)
    (stays : ∀ w, flow ≠ .returned w) (collected : collectValue collect flow u = .ok () v) :
    Starts host ⟨n + 1, .statements collect c, s⟩ ⟨n + 1, .look, v⟩
  | initial {n : Nat} {h : Hoist} {e : Expr} {d : Cursor} {s : State}
    (read : (expression s.names Terminator.never h.initializer).outcome = .ok (e, d)) :
    Starts host ⟨n + 1, .initializer h, s⟩ ⟨n + 1, .evaluate ⟨s.names, h.initializer⟩ e, s⟩
  -- Watches.
  | fire {n i : Nat} {w : Watch} {s t : State} (among : i < s.watches.length)
    (fires : Fires host (innerAt host n) s i w t) :
    Starts host ⟨n + 1, .look, s⟩ ⟨n + 1, .fire i w, t.noting i w⟩
  | reread {n i : Nat} {w : Watch} {bs : List Branch} {s t : State}
    (guards : rereadWatch i w (s.triggered i w) = .ok bs t) :
    Starts host ⟨n + 1, .fire i w, s⟩
      ⟨n + 1, .branches false (fun g => ⟨(s.triggered i w).names, ⟨g.text, g.pos⟩⟩) bs, t⟩
  -- An expression that is typed.
  | input {n : Nat} {o : Origin} {e : Expr} {s : State} :
    Starts host ⟨n + 1, .input o e, s⟩ ⟨n + 1, .evaluate o e, s⟩

/-! ## Failures that begin with a task -/

/-- The run fails without a place, and the failure is what this one is at the given place. -/
structure Run.FailsAt {α : Type} (pos : Position) (x : Run α) (s : State) (e : Error) : Prop where
  failed : ∃ e' t, x s = .error e' t ∧ e'.pos? = none ∧ e = e'.withPosition (some pos)
  place : e.pos? = some pos

/-- The task reads a text, and fails with what the reading fails with. -/
inductive Unread (host : Host) : Task → Origin → Error → Prop
  | whole {n : Nat} {c : Cursor} {s : State} {e : Error} (failed : (fullExpression s.names c).outcome = .error e) :
    Unread host ⟨n + 1, .whole c, s⟩ ⟨s.names, c⟩ e
  | statement {n : Nat} {collect : Bool} {c : Cursor} {s : State} {e : Error}
    (failed : Gapscript.statement ⟨(s.onLine c).names, host.endCloses⟩ c = .error e.settled) :
    Unread host ⟨n + 1, .statement collect c, s⟩ (s.origin c) e
  | initializer {n : Nat} {h : Hoist} {s : State} {e : Error}
    (failed : (expression s.names Terminator.never h.initializer).outcome = .error e) :
    Unread host ⟨n + 1, .initializer h, s⟩ ⟨s.names, h.initializer⟩ e
  | guard {n i : Nat} {w : Watch} {b : Branch} {g : Guard} {s t : State} {e : Error} (branch : b ∈ w.branches)
    (guarded : b.guard = some g)
    (failed : (fullExpression (s.triggered i w).names ⟨g.text, g.pos⟩).outcome = .error e)
    (reread : rereadWatch i w (s.triggered i w) = .error e.settled t) :
    Unread host ⟨n + 1, .fire i w, s⟩ ⟨(s.triggered i w).names, ⟨g.text, g.pos⟩⟩ e

/-- The failure begins with the task, and what stands under the cursor is what fails: an atom whose base fails
without a place or does not have the property that is read, a call that is refused, a body that no frame is left
for, a statement, an initializer or an input that fails without a place, or something that cannot be read. -/
inductive Raises (host : Host) : Task → Error → Cursor → Prop
  | base {n : Nat} {o : Origin} {b : Base} {accs : List Accessor} {d : Cursor} {s : State} {e : Error}
    (stands : o.Stands d (.atom b accs d.pos)) (fails : (evalBase host (innerAt host n) b).FailsAt d.pos s e) :
    Raises host ⟨n + 1, .evaluate o (.atom b accs d.pos), s⟩ e d
  | property {n : Nat} {o : Origin} {b : Base} {before after : List Accessor} {acc : Accessor} {d : Cursor}
    {v : Value} {key : String} {s t u : State} {f : TypeFault}
    (stands : o.Stands d (.atom b (before ++ acc :: after) d.pos))
    (first : eval host (innerAt host n) (.atom b before d.pos) s = .ok v t)
    (named : evalKey host (innerAt host n) acc t = .ok key u) (fault : u.heap.readProperty v key = .error f) :
    Raises host ⟨n + 1, .evaluate o (.atom b (before ++ acc :: after) d.pos), s⟩
      ((Error.ofFault f).withPosition (some d.pos)) d
  | arity {n : Nat} {fn : FunctionRef} {args : List Value} {d : Cursor} {s : State}
    (differs : args.length ≠ fn.code.arity) :
    Raises host ⟨n + 1, .call fn args d, s⟩
      (.runtime ⟨.argumentCount fn.code.name fn.code.arity args.length, some d.pos⟩) d
  | native {n slot arity : Nat} {fn : FunctionRef} {args : List Value} {d : Cursor} {f : HostFunction} {s t : State}
    {e : Error} (same : args.length = fn.code.arity) (body : fn.code.body = .native slot arity)
    (known : host.functions[slot]? = some f)
    (failed : f.handler ⟨args, some d.pos⟩ (fn.code.handing args s) = .error e t)
    (place : (e.withPosition (some d.pos)).pos? = some d.pos) :
    Raises host ⟨n + 1, .call fn args d, s⟩ (e.withPosition (some d.pos)) d
  | frame {n : Nat} {fn : FunctionRef} {args : List Value} {d : Cursor} {text : Text} {pos : Position} {block : Bool}
    {s : State} {f : TypeFault} (same : args.length = fn.code.arity) (body : fn.code.body = .script text pos block)
    (refused : fn.code.entry args s = .error f) :
    Raises host ⟨n + 1, .call fn args d, s⟩ ((Error.ofFault f).withPosition (some d.pos)) d
  | block {n : Nat} {collect : Bool} {body : Cursor} {s : State} {f : TypeFault} (refused : s.entry = .error f) :
    Raises host ⟨n + 1, .block collect body, s⟩ ((Error.ofFault f).withPosition (some body.pos)) body
  | statement {n : Nat} {collect : Bool} {c : Cursor} {s : State} {e : Error}
    (fails : (runStatement host (innerAt host n) collect c).FailsAt c.pos s e) :
    Raises host ⟨n + 1, .statement collect c, s⟩ e c
  | initializer {n : Nat} {h : Hoist} {tree : Expr} {d : Cursor} {s : State} {e : Error}
    (read : (expression s.names Terminator.never h.initializer).outcome = .ok (tree, d))
    (fails : (eval host (innerAt host n) tree).FailsAt h.initializer.pos s e) :
    Raises host ⟨n + 1, .initializer h, s⟩ e h.initializer
  | input {n : Nat} {o : Origin} {tree : Expr} {s : State} {e : Error}
    (fails : (eval host (innerAt host n) tree).FailsAt o.cursor.pos s e) :
    Raises host ⟨n + 1, .input o tree, s⟩ e o.cursor
  | unread {task : Task} {o : Origin} {d : Cursor} {e : Error} (unread : Unread host task o e) (halts : o.Halts d e) :
    Raises host task e.settled d

end Gapscript
