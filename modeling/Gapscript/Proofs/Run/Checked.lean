import Gapscript.Proofs.Reading.WellFormed
import Gapscript.Proofs.Run.Contract
import Gapscript.Proofs.Expr.Prefix

/-!
# Evaluation with nothing missing

Evaluation goes through a tree as if its parts fitted together: it takes a value for each key of an object,
and an argument for each parameter. `evalChecked` looks at each of these places whether there is one, and
goes on with `stuck` where there is none. On a tree that was read it does what `eval` does, whatever
`stuck` is (`parsed_trees_never_stuck`).
-/

namespace Gapscript

section Checked

variable (stuck : {α : Type} → Run α) (host : Host) (inner : Inner)

/-- Binds each parameter to the argument at its place. -/
def bindChecked : List String → List Value → Run Unit
  | [], _ => pure ()
  | _ :: _, [] => stuck
  | p :: ps, v :: vs => do
    modify fun s => s.declare p v .varVar .forever
    bindChecked ps vs

/-- Calls a function, whose own check of the number of arguments must not fail. -/
def callChecked (fn : FunctionRef) (args : List Value) (pos : Option Position) : Run Value :=
  let code := fn.code
  if args.length = code.arity then
    match code.body with
    | .native .. => callFunction host inner fn args pos
    | .script text bodyPos block => do
      Run.debug .function
        ("calling " ++ code.describe ++ " (defined on line " ++ toString code.line ++ ")")
      Run.inFrame pos do
        bindChecked stuck code.params args
        runBody inner text bodyPos block
  else stuck

mutual

/-- The value of an expression. -/
def evalChecked : Expr → Run Value
  | .atom base accs pos => do
    let v ← Run.locate (some pos) (evalBaseChecked base)
    evalAccessorsChecked pos v accs
  | .unary op e => do
    let v ← evalChecked e
    Run.ofFault (Heap.unary op v)
  | .binary op l r => do
    let a ← evalChecked l
    match op, a.toBoolean with
    | .and, false => pure a
    | .or, true => pure a
    | _, _ =>
      let b ← evalChecked r
      let s ← get
      Run.ofFault (s.heap.binary op a b)

/-- The values of some expressions, from left to right. -/
def evalAllChecked : List Expr → Run (List Value)
  | [] => pure []
  | e :: es => do
    let v ← evalChecked e
    let vs ← evalAllChecked es
    pure (v :: vs)

/-- The properties of an object: for each key the value at its place. -/
def evalEntriesChecked : List String → List Expr → Run (List (String × Value))
  | [], _ => pure []
  | _ :: _, [] => stuck
  | key :: keys, e :: es => do
    let v ← evalChecked e
    let entries ← evalEntriesChecked keys es
    pure ((key, v) :: entries)

/-- The value of a base. -/
def evalBaseChecked : Base → Run Value
  | .literal v _ => pure v
  | .name _ v => pure v
  | .call _ fn args pos => do
    let vs ← evalAllChecked args
    callChecked stuck host inner fn vs (some pos)
  | .object keys values => do
    let entries ← evalEntriesChecked keys values
    modifyGet fun s => s.newObject (entries.foldl (fun o (k, v) => o.set k v) {})
  | .array elements => do
    let vs ← evalAllChecked elements
    modifyGet fun s => s.newObject (Object.ofElements vs)
  | .function fn =>
    modifyGet fun s =>
      let (f, s) := s.newFunction fn
      (.function f, s)

/-- Reads properties off a value, one after the other. -/
def evalAccessorsChecked (pos : Position) (v : Value) : List Accessor → Run Value
  | [] => pure v
  | acc :: accs => do
    let key ← evalKeyChecked acc
    let s ← get
    let v ← Run.locate (some pos) (Run.ofFault (s.heap.readProperty v key))
    evalAccessorsChecked pos v accs

/-- The property key of an accessor. -/
def evalKeyChecked : Accessor → Run String
  | .dot name => pure name
  | .index e => do
    let v ← evalChecked e
    let s ← get
    pure (s.heap.propertyKey v)

end

end Checked

/-! ## Nothing is missing -/

variable {stuck : {α : Type} → Run α} {host : Host} {inner : Inner}

theorem bindChecked_eq {params : List String} {args : List Value} (enough : params.length ≤ args.length) :
    bindChecked stuck params args = (modify (bindParams params args) : Run Unit) := by
  induction params generalizing args with
  | nil => rfl
  | cons p ps ih =>
    cases args with
    | nil => cases enough
    | cons v vs =>
      rw [bindChecked, ih (Nat.le_of_succ_le_succ enough)]
      rfl

theorem callChecked_eq {fn : FunctionRef} {args : List Value} (matched : args.length = fn.code.arity)
    (pos : Option Position) :
    callChecked stuck host inner fn args pos = callFunction host inner fn args pos := by
  unfold callChecked
  dsimp only
  rw [if_pos matched]
  split
  · rfl
  · next text bodyPos block script =>
    have params : fn.code.arity = fn.code.params.length := by rw [Function.arity, script]
    rw [bindChecked_eq (Nat.le_of_eq (matched.trans params).symm)]
    unfold callFunction
    dsimp only
    rw [if_neg (Decidable.not_not.2 matched), script]

theorem length_evalAll {es : List Expr} {s t : State} {vs : List Value}
    (h : evalAll host inner es s = .ok vs t) : vs.length = es.length := by
  induction es generalizing s vs with
  | nil =>
    cases h
    rfl
  | cons e es ih =>
    rw [evalAll] at h
    obtain ⟨v, u, -, h⟩ := Run.bind_eq_ok.1 h
    obtain ⟨vs', u', rest, h⟩ := Run.bind_eq_ok.1 h
    cases h
    exact congrArg (· + 1) (ih rest)

/-- What follows only has to be the same for results that can come. -/
theorem bind_eq_of_ok {α β : Type} {x : Run α} {f g : α → Run β}
    (same : ∀ s a t, x s = .ok a t → f a = g a) : x >>= f = x >>= g := by
  funext s
  cases run : x s with
  | ok a t => rw [Run.bind_of_ok run, Run.bind_of_ok run, same s a t run]
  | error e t => rw [Run.bind_of_error run, Run.bind_of_error run]

mutual

theorem evalChecked_eq (e : Expr) (h : e.WellFormed) : evalChecked stuck host inner e = eval host inner e := by
  rw [Expr.WellFormed] at h
  cases e with
  | atom b accs pos =>
    rw [Expr.Throughout] at h
    rw [evalChecked, eval, evalBaseChecked_eq b h.1]
    exact bind_congr fun v => evalAccessorsChecked_eq pos v accs h.2
  | unary op e =>
    rw [Expr.Throughout] at h
    rw [evalChecked, eval, evalChecked_eq e h]
  | binary op l r =>
    rw [Expr.Throughout] at h
    rw [evalChecked, eval, evalChecked_eq l h.1]
    exact evalChecked_eq r h.2 ▸ rfl

theorem evalAllChecked_eq (es : List Expr) (h : Expr.AllThroughout Base.Matched es) :
    evalAllChecked stuck host inner es = evalAll host inner es := by
  cases es with
  | nil => rw [evalAllChecked, evalAll]
  | cons e es =>
    rw [Expr.AllThroughout] at h
    rw [evalAllChecked, evalAll, evalChecked_eq e h.1, evalAllChecked_eq es h.2]

theorem evalEntriesChecked_eq (keys : List String) (es : List Expr) (matched : keys.length = es.length)
    (h : Expr.AllThroughout Base.Matched es) :
    evalEntriesChecked stuck host inner keys es = (keys.zip ·) <$> evalAll host inner es := by
  match keys, es with
  | [], [] =>
    rw [evalEntriesChecked, evalAll]
    rfl
  | key :: keys, e :: es =>
    rw [Expr.AllThroughout] at h
    rw [evalEntriesChecked, evalAll, evalChecked_eq e h.1,
      evalEntriesChecked_eq keys es (Nat.succ.inj matched) h.2]
    simp

theorem evalBaseChecked_eq (b : Base) (h : b.Throughout Base.Matched) :
    evalBaseChecked stuck host inner b = evalBase host inner b := by
  cases b with
  | literal v implicit | name name v | function fn => rw [evalBaseChecked, evalBase]
  | call name fn args pos =>
    rw [Base.Throughout] at h
    rw [evalBaseChecked, evalBase, evalAllChecked_eq args h.2]
    refine bind_eq_of_ok fun s vs t run => callChecked_eq ?_ _
    rw [length_evalAll run]
    exact h.1
  | object keys values =>
    rw [Base.Throughout] at h
    rw [evalBaseChecked, evalBase, evalEntriesChecked_eq keys values h.1 h.2]
    simp
  | array elements =>
    rw [Base.Throughout] at h
    rw [evalBaseChecked, evalBase, evalAllChecked_eq elements h.2]

theorem evalAccessorsChecked_eq (pos : Position) (v : Value) (accs : List Accessor)
    (h : Accessor.AllThroughout Base.Matched accs) :
    evalAccessorsChecked stuck host inner pos v accs = evalAccessors host inner pos v accs := by
  cases accs with
  | nil => rw [evalAccessorsChecked, evalAccessors]
  | cons acc accs =>
    cases acc with
    | dot name =>
      rw [Accessor.AllThroughout] at h
      rw [evalAccessorsChecked, evalAccessors, evalKeyChecked, evalKey]
      refine bind_congr fun key => bind_congr fun s => bind_congr fun v => ?_
      exact evalAccessorsChecked_eq pos v accs h
    | index e =>
      rw [Accessor.AllThroughout] at h
      rw [evalAccessorsChecked, evalAccessors, evalKeyChecked, evalKey, evalChecked_eq e h.1]
      refine bind_congr fun key => bind_congr fun s => bind_congr fun v => ?_
      exact evalAccessorsChecked_eq pos v accs h.2

end

/-- In a tree that was read every call at any depth has the arguments of the function it captured, and every
object as many values as keys; so evaluating it, whatever the state has become, never finds a number of
arguments wrong and never looks for a value or an argument that is not there. -/
theorem parsed_trees_never_stuck {e : Expr} (h : e.Parsed) :
    (∀ ps b accs pos, e.Contains ps (.atom b accs pos) → b.Matched) ∧
      ∀ (stuck : {α : Type} → Run α) (host : Host) (inner : Inner),
        evalChecked stuck host inner e = eval host inner e := by
  have whole := wellFormed_of_parsed h
  exact ⟨Expr.throughout_iff.1 whole, fun stuck host inner => evalChecked_eq e whole⟩

/-- Calls inside each other, in the value of a property and in elements. -/
def sumText : Text := "add {a: add zero, 1n, b: 2n}.a, neg [1n, 2n][0n]".toList

theorem parsed_trees_never_stuck_sum :
    ∃ e d l, expression calculator.names Terminator.never ⟨sumText, {}⟩ [] = .ok (e, d) l ∧ d.rest = [] ∧
      e.Parsed ∧ (∀ ps b accs pos, e.Contains ps (.atom b accs pos) → b.Matched) ∧
      ∀ (host : Host) (inner : Inner), evalChecked (throw .exhausted) host inner e = eval host inner e := by
  have whole : (match expression calculator.names Terminator.never ⟨sumText, {}⟩ [] with
      | .ok (_, d) _ => d.rest.isEmpty
      | .error .. => false) = true := by rfl
  cases read : expression calculator.names Terminator.never ⟨sumText, {}⟩ [] with
  | error e l =>
    rw [read] at whole
    cases whole
  | ok r l =>
    obtain ⟨e, d⟩ := r
    rw [read] at whole
    have parsed : e.Parsed := .expression read
    obtain ⟨matched, same⟩ := parsed_trees_never_stuck parsed
    exact ⟨e, d, l, rfl, List.isEmpty_iff.1 whole, parsed, matched, same _⟩

end Gapscript
