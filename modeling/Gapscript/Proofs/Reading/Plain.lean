import Gapscript.Proofs.Reading.Notes

/-!
# Bare words in a tree

A tree is searched for bare words, texts that nobody quoted, among its operands only: those in the
arguments of calls, in arrays and objects and in accessors are passed over. A line without brackets
and braces, none of whose words can be called with arguments, is read as a tree that has operands
only, so there the search sees every bare word.
-/

namespace Gapscript

/-! ## Places in a tree -/

/-- The kinds of places where an expression stands directly in another one. -/
inductive Part where
  | operand | argument | element | property | index
deriving DecidableEq

/-- An expression stands in another one; the list says where, from the outside in. -/
inductive Expr.Contains : Expr → List Part → Expr → Prop
  | here (e : Expr) : Contains e [] e
  | operand (op : UnaryOp) {e a : Expr} {ps : List Part} (inside : Contains e ps a) :
    Contains (.unary op e) (.operand :: ps) a
  | left (op : BinaryOp) {l a : Expr} (r : Expr) {ps : List Part} (inside : Contains l ps a) :
    Contains (.binary op l r) (.operand :: ps) a
  | right (op : BinaryOp) (l : Expr) {r a : Expr} {ps : List Part} (inside : Contains r ps a) :
    Contains (.binary op l r) (.operand :: ps) a
  | argument (name : String) (fn : FunctionRef) {args : List Expr} (at' : Position) (accs : List Accessor)
    (pos : Position) {e a : Expr} {ps : List Part} (he : e ∈ args) (inside : Contains e ps a) :
    Contains (.atom (.call name fn args at') accs pos) (.argument :: ps) a
  | element {es : List Expr} (accs : List Accessor) (pos : Position) {e a : Expr} {ps : List Part}
    (he : e ∈ es) (inside : Contains e ps a) : Contains (.atom (.array es) accs pos) (.element :: ps) a
  | property (keys : List String) {values : List Expr} (accs : List Accessor) (pos : Position) {e a : Expr}
    {ps : List Part} (he : e ∈ values) (inside : Contains e ps a) :
    Contains (.atom (.object keys values) accs pos) (.property :: ps) a
  | index (b : Base) {accs : List Accessor} (pos : Position) {e a : Expr} {ps : List Part}
    (he : .index e ∈ accs) (inside : Contains e ps a) : Contains (.atom b accs pos) (.index :: ps) a

/-- The expression is a text that nobody quoted. -/
def Expr.Bare : Expr → Prop
  | .atom (.literal _ true) _ _ => True
  | _ => False

/-- The search for bare words finds those that are operands of operands, at any depth. -/
theorem hasImplicit_iff (e : Expr) :
    e.hasImplicit = true ↔ ∃ ps a, e.Contains ps a ∧ a.Bare ∧ ∀ p ∈ ps, p = .operand := by
  induction e using Expr.hasImplicit.induct with
  | case1 op e ih =>
    rw [Expr.hasImplicit, ih]
    constructor
    · rintro ⟨ps, a, inside, bare, operands⟩
      exact ⟨.operand :: ps, a, .operand op inside, bare, List.forall_mem_cons.2 ⟨rfl, operands⟩⟩
    · rintro ⟨ps, a, inside, bare, operands⟩
      cases inside with
      | here => cases bare
      | operand _ inside => exact ⟨_, a, inside, bare, (List.forall_mem_cons.1 operands).2⟩
  | case2 op l r ihl ihr =>
    rw [Expr.hasImplicit, Bool.or_eq_true, ihl, ihr]
    constructor
    · rintro (⟨ps, a, inside, bare, operands⟩ | ⟨ps, a, inside, bare, operands⟩)
      · exact ⟨.operand :: ps, a, .left op r inside, bare, List.forall_mem_cons.2 ⟨rfl, operands⟩⟩
      · exact ⟨.operand :: ps, a, .right op l inside, bare, List.forall_mem_cons.2 ⟨rfl, operands⟩⟩
    · rintro ⟨ps, a, inside, bare, operands⟩
      cases inside with
      | here => cases bare
      | left _ _ inside => exact .inl ⟨_, a, inside, bare, (List.forall_mem_cons.1 operands).2⟩
      | right _ _ inside => exact .inr ⟨_, a, inside, bare, (List.forall_mem_cons.1 operands).2⟩
  | case3 v implicit accs pos =>
    rw [Expr.hasImplicit]
    constructor
    · rintro rfl
      exact ⟨[], _, .here _, trivial, fun _ hp => nomatch hp⟩
    · rintro ⟨ps, a, inside, bare, operands⟩
      cases inside with
      | here =>
        cases implicit with
        | true => rfl
        | false => cases bare
      | index _ _ he inside => cases (List.forall_mem_cons.1 operands).1
  | case4 b accs pos other =>
    have plain : (Expr.atom b accs pos).hasImplicit = false := by
      cases b with
      | literal v implicit => exact absurd rfl (other v implicit)
      | _ => rfl
    rw [plain]
    refine iff_of_false (by decide) ?_
    rintro ⟨ps, a, inside, bare, operands⟩
    cases inside with
    | here =>
      cases b with
      | literal v implicit => exact other v implicit rfl
      | _ => cases bare
    | _ => cases (List.forall_mem_cons.1 operands).1

/-! ## Plain trees -/

/-- The base has no expressions in it. -/
def Base.Plain : Base → Prop
  | .call _ _ args _ => args = []
  | .object _ values => values = []
  | .array elements => elements = []
  | _ => True

/-- The accessor has no expression in it. -/
def Accessor.Plain : Accessor → Prop
  | .dot _ => True
  | .index _ => False

/-- The only expressions in the tree are operands. -/
def Expr.Plain : Expr → Prop
  | .atom b accs _ => b.Plain ∧ ∀ acc ∈ accs, acc.Plain
  | .unary _ e => e.Plain
  | .binary _ l r => l.Plain ∧ r.Plain

theorem Expr.Contains.operands {e a : Expr} {ps : List Part} (h : e.Contains ps a) (plain : e.Plain) :
    ∀ p ∈ ps, p = .operand := by
  induction h with
  | here e => exact fun _ hp => nomatch hp
  | operand op _ ih => exact List.forall_mem_cons.2 ⟨rfl, ih plain⟩
  | left op r _ ih => exact List.forall_mem_cons.2 ⟨rfl, ih plain.1⟩
  | right op l _ ih => exact List.forall_mem_cons.2 ⟨rfl, ih plain.2⟩
  | argument name fn at' accs pos he _ ih =>
    have none : _ = [] := plain.1
    rw [none] at he
    cases he
  | element accs pos he _ ih =>
    have none : _ = [] := plain.1
    rw [none] at he
    cases he
  | property keys accs pos he _ ih =>
    have none : _ = [] := plain.1
    rw [none] at he
    cases he
  | index b pos he _ ih => exact (plain.2 _ he).elim

/-! ## Plain lines -/

/-- A text without brackets and braces, none of whose words can be called with arguments. -/
structure Names.PlainText (names : Names) (c : Cursor) : Prop where
  brackets : '[' ∉ c.rest
  braces : '\x7b' ∉ c.rest
  words : ∀ {d e name fn}, c.Reaches d → Lexical.bindingName d = .ok (name, e) →
    names.callee? true name = some fn → fn.code.arity = 0

section Reading

open Reading Lexical Cursor

variable {names : Names} {self : ExprReader} {c d : Cursor}

theorem Names.PlainText.reaches (h : names.PlainText c) (hd : c.Reaches d) : names.PlainText d := by
  obtain ⟨p, hp, -⟩ := hd.exists_text
  refine ⟨fun hm => h.brackets ?_, fun hm => h.braces ?_, fun he => h.words (hd.trans he)⟩
  · rw [hp]
    exact List.mem_append_right p hm
  · rw [hp]
    exact List.mem_append_right p hm

theorem consume?_of_not_mem {x : Char} {s : String} (hs : s.toList = [x]) (hx : x ∉ c.rest) :
    c.consume? s = none := by
  unfold Cursor.consume?
  rw [if_neg]
  intro starts
  rw [Cursor.startsWith, hs, List.isPrefixOf_iff_prefix] at starts
  exact hx (starts.subset (List.mem_singleton_self x))

/-- A word that can be called takes no arguments. -/
theorem plain_call (plain : names.PlainText c) (term : Terminator) :
    (call names self true term c).Yields fun r => c.Reaches r.2 ∧ r.1.Plain := by
  refine Yields.bind (P := fun r => bindingName c = .ok r) (yields_ofExcept fun r hr => hr) ?_
  rintro ⟨name, d⟩ named
  dsimp only
  cases callee : names.callee? true name with
  | none => exact yields_fail _
  | some fn =>
    have none := plain.words (.refl c) named callee
    dsimp only
    rw [none, arguments]
    exact yields_pure ⟨(passes_bindingName named).reaches, rfl⟩

theorem plain_variableName : (variableName names c).Yields fun r => c.Reaches r.2 ∧ r.1.Plain := by
  refine Yields.bind (P := fun r => bindingName c = .ok r) (yields_ofExcept fun r hr => hr) ?_
  rintro ⟨name, d⟩ named
  dsimp only
  cases names.value? name with
  | none => exact yields_fail _
  | some v => exact yields_bind fun _ => yields_pure ⟨(passes_bindingName named).reaches, trivial⟩

theorem plain_literalBase : (literalBase c).Yields fun r => c.Reaches r.2 ∧ r.1.Plain := by
  refine yields_ofExcept (Q := fun r : Base × Cursor => c.Reaches r.2 ∧ r.1.Plain) fun r hr => ?_
  cases hl : literal c with
  | error e => rw [hl] at hr; cases hr
  | ok l =>
    rw [hl] at hr
    cases hr
    exact ⟨(passes_literal hl).reaches, trivial⟩

theorem plain_functionBase (term : Terminator) :
    (functionBase term c).Yields fun r => c.Reaches r.2 ∧ r.1.Plain := by
  refine yields_ofExcept (Q := fun r : Base × Cursor => c.Reaches r.2 ∧ r.1.Plain) fun r hr => ?_
  cases hf : functionLiteral term c with
  | error e => rw [hf] at hr; cases hr
  | ok f =>
    rw [hf] at hr
    cases hr
    exact ⟨(passes_functionLiteral hf).reaches, trivial⟩

theorem plain_implicitBase (term : Terminator) :
    (implicitBase term c).Yields fun r => c.Reaches r.2 ∧ r.1.Plain := by
  refine yields_ofExcept (Q := fun r : Base × Cursor => c.Reaches r.2 ∧ r.1.Plain) fun r hr => ?_
  obtain ⟨b, d⟩ := r
  obtain ⟨s, rfl⟩ := exists_of_implicitString hr
  exact ⟨(passes_implicitString hr).reaches, trivial⟩

theorem plain_base (plain : names.PlainText c) (fuel : Nat) (term : Terminator) :
    (base names self fuel term c).Yields fun r => c.Reaches r.2 ∧ r.1.Plain := by
  refine yields_firstOf fun p hp => ?_
  simp only [List.mem_cons, List.not_mem_nil, or_false] at hp
  rcases hp with rfl | rfl | rfl | rfl | rfl | rfl | rfl
  · exact plain_call plain term
  · exact plain_variableName
  · exact plain_literalBase
  · unfold object
    rw [consume?_of_not_mem rfl plain.braces]
    exact yields_fail _
  · unfold array
    rw [consume?_of_not_mem rfl plain.brackets]
    exact yields_fail _
  · exact plain_functionBase term
  · exact plain_implicitBase term

theorem plain_accessors (plain : names.PlainText c) (fuel : Nat) :
    (accessors self fuel c).Yields fun r => c.Reaches r.2 ∧ ∀ acc ∈ r.1, acc.Plain := by
  induction fuel generalizing c with
  | zero => exact yields_throw _
  | succ fuel ih =>
    have nothing : (pure ([], c) : Reading (List Accessor × Cursor)).Yields
        fun r => c.Reaches r.2 ∧ ∀ acc ∈ r.1, acc.Plain :=
      yields_pure ⟨.refl c, fun _ hacc => nomatch hacc⟩
    rw [accessors.eq_def]
    dsimp only
    split
    · cases hname : identifier Terminator.name c.next with
      | error e => exact nothing
      | ok r =>
        obtain ⟨name, d⟩ := r
        have named : c.Reaches d := (reaches_next c).trans (passes_identifier hname).reaches
        refine (ih (plain.reaches named)).bind ?_
        rintro ⟨more, d⟩ ⟨hd, dots⟩
        exact yields_pure ⟨named.trans hd, List.forall_mem_cons.2 ⟨trivial, dots⟩⟩
    · next hopen => exact (plain.brackets (by rw [hopen]; exact List.mem_cons_self)).elim
    · exact nothing

theorem plain_atom (plain : names.PlainText c) (fuel : Nat) (term : Terminator) :
    (atom names self fuel term c).Yields fun r => c.Reaches r.2 ∧ r.1.Plain := by
  refine (plain_base plain fuel term).bind ?_
  rintro ⟨b, d⟩ ⟨hd, hb⟩
  refine (plain_accessors (plain.reaches hd) fuel).bind ?_
  rintro ⟨accs, e⟩ ⟨he, dots⟩
  exact yields_pure ⟨hd.trans he, hb, dots⟩

theorem plain_operand (plain : names.PlainText c) (fuel : Nat) (term : Terminator) :
    (operand names self fuel term c).Yields fun r => c.Reaches r.2.2 ∧ r.2.1.Plain := by
  have whole : (atom names self fuel term c).Yields fun r => c.Reaches r.2 ∧ r.1.Plain :=
    plain_atom plain fuel term
  unfold operand
  cases hruns : unaryRuns c with
  | mk runs d =>
    have start := reaches_unaryRuns hruns
    cases runs with
    | nil => exact whole.bind fun _ hr => yields_pure hr
    | cons run runs =>
      refine (plain_atom (plain.reaches start) fuel term).attempt.bind fun r hr => ?_
      cases r with
      | none => exact whole.bind fun _ hr => yields_pure hr
      | some r => exact yields_pure ⟨start.trans (hr r rfl).1, (hr r rfl).2⟩

theorem plain_unary (op : UnaryOp) (e : Expr) (h : e.Plain) : (Expr.unary op e).Plain := h

theorem plain_binary (op : BinaryOp) (l r : Expr) (hl : l.Plain) (hr : r.Plain) : (Expr.binary op l r).Plain :=
  ⟨hl, hr⟩

theorem plain_operations (plain : names.PlainText c) (fuel : Nat) (term : Terminator) (left : Nat) {f : Fold}
    (hf : ∀ e ∈ f.operands, e.Plain) :
    (operations names self fuel term left f c).Yields fun r => ∀ e ∈ r.1.operands, e.Plain := by
  induction left generalizing f c with
  | zero => exact yields_throw _
  | succ left ih =>
    have nothing : (pure (f, c) : Reading (Fold × Cursor)).Yields fun r => ∀ e ∈ r.1.operands, e.Plain :=
      yields_pure hf
    rw [operations]
    dsimp only [measureGap]
    split
    · exact nothing
    · cases hop : binaryOperator (skipGap c) with
      | error e => exact nothing
      | ok r =>
        obtain ⟨op, d⟩ := r
        have start : c.Reaches (skipGap d) :=
          ((reaches_skipGap c).then (passes_binaryOperator hop)).skipGap.reaches
        refine (plain_operand (plain.reaches start) fuel term).attempt.bind fun r hr => ?_
        cases r with
        | none => exact nothing
        | some r =>
          obtain ⟨hd, he⟩ := hr r rfl
          refine ih (plain.reaches (start.trans hd)) (List.forall_mem_cons.2 ⟨he, ?_⟩)
          exact Fold.forall_settle plain_unary plain_binary hf

theorem plain_expressionWith (plain : names.PlainText c) (fuel : Nat) (term : Terminator) :
    (expressionWith names self fuel term c).Yields fun r => r.1.Plain := by
  refine (plain_operand plain fuel term).bind ?_
  rintro ⟨runs, e, d⟩ ⟨hd, he⟩
  have first : ∀ a ∈ (Fold.pushOperand {} runs e).operands, a.Plain := List.forall_mem_singleton.2 he
  refine (plain_operations (plain.reaches hd) fuel term fuel first).bind ?_
  rintro ⟨f, d⟩ hf
  refine yields_pure ?_
  have whole := Fold.forall_finish plain_unary plain_binary hf
  cases hfinish : f.finish with
  | nil => exact he
  | cons e' es => exact whole e' (by rw [hfinish]; exact List.mem_cons_self)

/-- A plain text is read as a plain tree. -/
theorem plain_fullExpression (plain : names.PlainText c) : (fullExpression names c).Yields Expr.Plain := by
  have inside := plain.reaches (reaches_skipGap c)
  refine (plain_expressionWith inside _ Terminator.never).bind ?_
  rintro ⟨e, d⟩ he
  dsimp only
  split
  · exact yields_pure he
  · exact yields_fail _

end Reading

end Gapscript
