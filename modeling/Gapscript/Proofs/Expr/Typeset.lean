import Gapscript.Proofs.Expr.Precedence
import Gapscript.Proofs.Reading.Literal

/-!
# Expressions as they are written

A typeset expression is a tree in which every operator has the spaces that it is written with. Its
text is a chain (`text_eq`): a first operand with its prefix operators, and then binary operators,
each with the operand to its right. Where every operator has more space than the operators inside
its operands, the chain has the tree as its proper tree (`proper_spacedTree`).
-/

namespace Gapscript

open Lexical

/-- A literal that can be written in one way only. -/
inductive Literal where
  | bigint (n : Nat)
  | boolean (b : Bool)
  | null
  | undefined
  | string (s : String)

mutual

/-- An expression with the spaces that its operators are written with: those after a prefix
operator, and those before and after a binary one. -/
inductive Typeset where
  | leaf (l : Leaf)
  | unary (op : UnaryOp) (width : Nat) (operand : Typeset)
  | binary (op : BinaryOp) (before after : Nat) (left right : Typeset)

/-- An operand that is written out: a literal, or an array of expressions. -/
inductive Leaf where
  | literal (l : Literal)
  | array (elements : List Typeset)

end

/-! ## Text and tree -/

/-- Some spaces. -/
def spaces (n : Nat) : Text := List.replicate n ' '

/-- The text of a literal. -/
def Literal.text : Literal → Text
  | bigint n => Nat.toDigits 10 n ++ ['n']
  | boolean b => (booleanWord b).toList
  | null => ['n', 'u', 'l', 'l']
  | undefined => ['u', 'n', 'd', 'e', 'f', 'i', 'n', 'e', 'd']
  | string s => inQuotes s.toList

/-- The value of a literal. -/
def Literal.value : Literal → Value
  | bigint n => .bigint n
  | boolean b => .boolean b
  | null => .null
  | undefined => .undefined
  | string s => .string s

mutual

/-- The text of an expression. -/
def Typeset.text : Typeset → Text
  | .leaf l => l.text
  | .unary op width t => op.token.toList ++ spaces width ++ t.text
  | .binary op before after l r =>
    l.text ++ (spaces before ++ op.token.toList ++ spaces after) ++ r.text

/-- The text of a leaf. -/
def Leaf.text : Leaf → Text
  | .literal l => l.text
  | .array es => '[' :: Typeset.closing es

/-- The elements of an array with commas between them, and the bracket that closes it. -/
def Typeset.closing : List Typeset → Text
  | [] => [']']
  | e :: es =>
    e.text ++
      match es with
      | [] => [']']
      | _ :: _ => ',' :: Typeset.closing es

end

mutual

/-- The expression tree, with no places in it. -/
def Typeset.tree : Typeset → Expr
  | .leaf l => .atom l.base [] {}
  | .unary op _ t => .unary op t.tree
  | .binary op _ _ l r => .binary op l.tree r.tree

/-- What a leaf stands for, with no places in it. -/
def Leaf.base : Leaf → Base
  | .literal l => .literal l.value false
  | .array es => .array (Typeset.trees es)

/-- The expression trees of some expressions. -/
def Typeset.trees : List Typeset → List Expr
  | [] => []
  | e :: es => e.tree :: Typeset.trees es

end

mutual

/-- The expression tree of a text that starts at a place: every atom has the place where it is
written. -/
def Typeset.placed : Typeset → Position → Expr
  | .leaf l, p => .atom (l.placedBase p) [] p
  | .unary op width t, p => .unary op (t.placed (p.afterText (op.token.toList ++ spaces width)))
  | .binary op before after l r, p =>
    .binary op (l.placed p)
      (r.placed (p.afterText (l.text ++ (spaces before ++ op.token.toList ++ spaces after))))

/-- What a leaf that starts at a place stands for. -/
def Leaf.placedBase : Leaf → Position → Base
  | .literal l, _ => .literal l.value false
  | .array es, p => .array (Typeset.placedAll es (p.after '['))

/-- The expression trees of elements that start at a place. -/
def Typeset.placedAll : List Typeset → Position → List Expr
  | [], _ => []
  | e :: es, p => e.placed p :: Typeset.placedAll es ((p.afterText e.text).after ',')

end

mutual

/-- The tree without the places of its atoms and calls. -/
def Expr.unplaced : Expr → Expr
  | .atom b accs _ => .atom b.unplaced (Accessor.unplacedAll accs) {}
  | .unary op e => .unary op e.unplaced
  | .binary op l r => .binary op l.unplaced r.unplaced

/-- The base without the places of its atoms and calls. -/
def Base.unplaced : Base → Base
  | .literal v implicit => .literal v implicit
  | .name name v => .name name v
  | .call name fn args _ => .call name fn (Expr.unplacedAll args) {}
  | .object keys values => .object keys (Expr.unplacedAll values)
  | .array elements => .array (Expr.unplacedAll elements)
  | .function fn => .function fn

/-- The trees without the places of their atoms and calls. -/
def Expr.unplacedAll : List Expr → List Expr
  | [] => []
  | e :: es => e.unplaced :: Expr.unplacedAll es

/-- The accessors without the places of their atoms and calls. -/
def Accessor.unplacedAll : List Accessor → List Accessor
  | [] => []
  | .dot name :: accs => .dot name :: Accessor.unplacedAll accs
  | .index e :: accs => .index e.unplaced :: Accessor.unplacedAll accs

end

mutual

theorem Typeset.unplaced_placed (t : Typeset) (p : Position) : (t.placed p).unplaced = t.tree := by
  cases t with
  | leaf l =>
    rw [Typeset.placed, Expr.unplaced, Leaf.unplaced_placedBase l p, Typeset.tree]
    rfl
  | unary op width t =>
    rw [Typeset.placed, Expr.unplaced, Typeset.unplaced_placed t, Typeset.tree]
  | binary op before after l r =>
    rw [Typeset.placed, Expr.unplaced, Typeset.unplaced_placed l, Typeset.unplaced_placed r, Typeset.tree]

theorem Leaf.unplaced_placedBase (l : Leaf) (p : Position) : (l.placedBase p).unplaced = l.base := by
  cases l with
  | literal l => rw [Leaf.placedBase, Base.unplaced, Leaf.base]
  | array es =>
    rw [Leaf.placedBase, Base.unplaced, Typeset.unplacedAll_placedAll es, Leaf.base]

theorem Typeset.unplacedAll_placedAll (es : List Typeset) (p : Position) :
    Expr.unplacedAll (Typeset.placedAll es p) = Typeset.trees es := by
  cases es with
  | nil => rfl
  | cons e es =>
    rw [Typeset.placedAll, Expr.unplacedAll, Typeset.unplaced_placed e,
      Typeset.unplacedAll_placedAll es, Typeset.trees]

end

/-! ## Widths -/

/-- The widths of the operators of an expression. Those within an array do not count: no operator
outside of it meets them. -/
def Typeset.widths : Typeset → List Nat
  | .leaf _ => []
  | .unary _ width t => width :: t.widths
  | .binary _ before after l r => (before + after) :: (l.widths ++ r.widths)

mutual

/-- Every operator is wider than the operators inside its own operands. -/
def Typeset.Ordered : Typeset → Prop
  | .leaf l => l.Ordered
  | .unary _ width t => (∀ w ∈ t.widths, w < width) ∧ t.Ordered
  | .binary _ before after l r =>
    (∀ w ∈ l.widths ++ r.widths, w < before + after) ∧ l.Ordered ∧ r.Ordered

/-- The elements of an array are ordered. -/
def Leaf.Ordered : Leaf → Prop
  | .literal _ => True
  | .array es => Typeset.AllOrdered es

/-- Some expressions are ordered. -/
def Typeset.AllOrdered : List Typeset → Prop
  | [] => True
  | e :: es => e.Ordered ∧ Typeset.AllOrdered es

end

/-! ## Every tree has a text -/

/-- How many operators stand inside each other, arrays apart. -/
def Typeset.height : Typeset → Nat
  | .leaf _ => 0
  | .unary _ _ t => t.height + 1
  | .binary _ _ _ l r => max l.height r.height + 1

mutual

/-- The expression with every operator as wide as it is high. -/
def Typeset.spread : Typeset → Typeset
  | .leaf l => .leaf l.spread
  | .unary op _ t => .unary op (t.height + 1) t.spread
  | .binary op _ _ l r => .binary op (max l.height r.height + 1) 0 l.spread r.spread

/-- The leaf with its elements spread. -/
def Leaf.spread : Leaf → Leaf
  | .literal l => .literal l
  | .array es => .array (Typeset.spreadAll es)

/-- The expressions spread one by one. -/
def Typeset.spreadAll : List Typeset → List Typeset
  | [] => []
  | e :: es => e.spread :: Typeset.spreadAll es

end

theorem Typeset.width_le_of_mem_spread (t : Typeset) : ∀ w ∈ t.spread.widths, w ≤ t.height := by
  match t with
  | .leaf l => simp [spread, widths]
  | .unary op width t =>
    have inside := width_le_of_mem_spread t
    simp only [spread, widths, height, List.forall_mem_cons]
    exact ⟨Nat.le_refl _, fun w hw => Nat.le_succ_of_le (inside w hw)⟩
  | .binary op before after l r =>
    have left := width_le_of_mem_spread l
    have right := width_le_of_mem_spread r
    simp only [spread, widths, height, List.forall_mem_cons, List.forall_mem_append]
    refine ⟨Nat.le_refl _, fun w hw => ?_, fun w hw => ?_⟩
    · have := left w hw
      omega
    · have := right w hw
      omega

mutual

theorem Typeset.ordered_spread (t : Typeset) : t.spread.Ordered := by
  match t with
  | .leaf l =>
    rw [Typeset.spread, Typeset.Ordered]
    exact l.ordered_spread
  | .unary op width t =>
    rw [Typeset.spread, Typeset.Ordered]
    exact ⟨fun w hw => Nat.lt_succ_of_le (Typeset.width_le_of_mem_spread t w hw), Typeset.ordered_spread t⟩
  | .binary op before after l r =>
    rw [Typeset.spread, Typeset.Ordered]
    refine ⟨fun w hw => ?_, Typeset.ordered_spread l, Typeset.ordered_spread r⟩
    rcases List.mem_append.1 hw with hw | hw
    · have := Typeset.width_le_of_mem_spread l w hw
      omega
    · have := Typeset.width_le_of_mem_spread r w hw
      omega

theorem Leaf.ordered_spread (l : Leaf) : l.spread.Ordered := by
  match l with
  | .literal l =>
    rw [Leaf.spread, Leaf.Ordered]
    trivial
  | .array es =>
    rw [Leaf.spread, Leaf.Ordered]
    exact Typeset.allOrdered_spreadAll es

theorem Typeset.allOrdered_spreadAll (es : List Typeset) : Typeset.AllOrdered (Typeset.spreadAll es) := by
  match es with
  | [] =>
    rw [Typeset.spreadAll, Typeset.AllOrdered]
    trivial
  | e :: es =>
    rw [Typeset.spreadAll, Typeset.AllOrdered]
    exact ⟨Typeset.ordered_spread e, Typeset.allOrdered_spreadAll es⟩

end

mutual

theorem Typeset.tree_spread (t : Typeset) : t.spread.tree = t.tree := by
  match t with
  | .leaf l => rw [Typeset.spread, Typeset.tree, Typeset.tree, l.base_spread]
  | .unary op width t => rw [Typeset.spread, Typeset.tree, Typeset.tree, Typeset.tree_spread t]
  | .binary op before after l r =>
    rw [Typeset.spread, Typeset.tree, Typeset.tree, Typeset.tree_spread l, Typeset.tree_spread r]

theorem Leaf.base_spread (l : Leaf) : l.spread.base = l.base := by
  match l with
  | .literal l => rw [Leaf.spread]
  | .array es => rw [Leaf.spread, Leaf.base, Leaf.base, Typeset.trees_spreadAll es]

theorem Typeset.trees_spreadAll (es : List Typeset) : Typeset.trees (Typeset.spreadAll es) = Typeset.trees es := by
  match es with
  | [] => rw [Typeset.spreadAll]
  | e :: es => rw [Typeset.spreadAll, Typeset.trees, Typeset.trees, Typeset.tree_spread e, Typeset.trees_spreadAll es]

end

/-! ## Chains -/

/-- The text of prefix operators, each with the spaces after it. -/
def leadOf (us : List (UnaryOp × Nat)) : Text := us.flatMap fun u => u.1.token.toList ++ spaces u.2

theorem leadOf_cons (op : UnaryOp) (width : Nat) (us : List (UnaryOp × Nat)) :
    leadOf ((op, width) :: us) = op.token.toList ++ spaces width ++ leadOf us := by
  simp [leadOf]

/-- A prefix operator that stands alone, as a run of one. -/
def aloneRun (u : UnaryOp × Nat) : UnaryRun := ⟨u.1, 1, u.2⟩

/-- A leaf with the prefix operators in front of it, each with the spaces after it. -/
structure Segment where
  prefixes : List (UnaryOp × Nat)
  leaf : Leaf

/-- A binary operator with the spaces around it and what stands to its right. -/
structure Link where
  op : BinaryOp
  before : Nat
  after : Nat
  segment : Segment

namespace Segment

/-- The text of the prefix operators. -/
def lead (s : Segment) : Text := leadOf s.prefixes

/-- The text of a segment. -/
def text (s : Segment) : Text := s.lead ++ s.leaf.text

/-- The operand that a segment at a place stands for. -/
def placed (s : Segment) (p : Position) : PrefixedOperand where
  runs := s.prefixes.map aloneRun
  value := (Typeset.leaf s.leaf).placed (p.afterText s.lead)

end Segment

namespace Link

/-- The text of the operator with its spaces. -/
def lead (k : Link) : Text := spaces k.before ++ k.op.token.toList ++ spaces k.after

/-- The text of a link. -/
def text (k : Link) : Text := k.lead ++ k.segment.text

/-- The operator, its width and its right operand, for a link at a place. -/
def placed (k : Link) (p : Position) : BinaryOp × Nat × PrefixedOperand :=
  (k.op, k.before + k.after, k.segment.placed (p.afterText k.lead))

/-- The operators with their operands, for links at a place. -/
def placedAll : List Link → Position → List (BinaryOp × Nat × PrefixedOperand)
  | [], _ => []
  | k :: ks, p => k.placed p :: placedAll ks (p.afterText k.text)

theorem placedAll_append (ks ls : List Link) (p : Position) :
    placedAll (ks ++ ls) p = placedAll ks p ++ placedAll ls (p.afterText (ks.flatMap text)) := by
  induction ks generalizing p with
  | nil => rfl
  | cons k ks ih =>
    rw [List.cons_append, placedAll, placedAll, ih, List.flatMap_cons, Position.afterText_append]
    rfl

end Link

namespace Typeset

/-- The first segment of an expression. -/
def first : Typeset → Segment
  | leaf l => ⟨[], l⟩
  | unary op width t => { t.first with prefixes := (op, width) :: t.first.prefixes }
  | binary _ _ _ l _ => l.first

/-- The links that follow the first segment. -/
def links : Typeset → List Link
  | leaf _ => []
  | unary _ _ t => t.links
  | binary op before after l r => l.links ++ ⟨op, before, after, r.first⟩ :: r.links

/-- The text of an expression is the text of its chain. -/
theorem text_eq (t : Typeset) : t.text = t.first.text ++ t.links.flatMap Link.text := by
  match t with
  | leaf l => simp [text, first, links, Segment.text, Segment.lead, leadOf]
  | unary op width t => simp [text, first, links, text_eq t, Segment.text, Segment.lead, leadOf]
  | binary op before after l r =>
    simp [text, first, links, text_eq l, text_eq r, Link.text, Link.lead]

/-- The chain of an expression that starts at a place. -/
def chain (t : Typeset) (p : Position) : Chain :=
  ⟨t.first.placed p, Link.placedAll t.links (p.afterText t.first.text)⟩

/-- The tree of an expression that starts at a place, with its widths. -/
def spacedTree : Typeset → Position → SpacedTree
  | leaf l, p => .operand ((leaf l).placed p)
  | unary op width t, p =>
    .unary op width (t.spacedTree (p.afterText (op.token.toList ++ spaces width)))
  | binary op before after l r, p =>
    .binary op (before + after) (l.spacedTree p)
      (r.spacedTree (p.afterText (l.text ++ (spaces before ++ op.token.toList ++ spaces after))))

theorem expr_spacedTree (t : Typeset) (p : Position) : (t.spacedTree p).expr = t.placed p := by
  match t with
  | leaf l => rfl
  | unary op width t => rw [spacedTree, SpacedTree.expr, expr_spacedTree t, placed]
  | binary op before after l r =>
    rw [spacedTree, SpacedTree.expr, expr_spacedTree l, expr_spacedTree r, placed]

theorem tokens_spacedTree (t : Typeset) (p : Position) : (t.spacedTree p).tokens = (t.chain p).tokens := by
  match t with
  | leaf l => rfl
  | unary op width t =>
    rw [spacedTree, SpacedTree.tokens, tokens_spacedTree t]
    simp only [chain, Chain.tokens, first, links, Segment.placed, Segment.text, Segment.lead, leadOf,
      aloneRun, PrefixedOperand.tokens, List.flatMap_cons, List.map_cons, List.cons_append,
      Position.afterText_append]
  | binary op before after l r =>
    have whole : (p.afterText l.first.text).afterText (l.links.flatMap Link.text) = p.afterText l.text := by
      rw [← Position.afterText_append, ← text_eq]
    rw [spacedTree, SpacedTree.tokens, tokens_spacedTree l, tokens_spacedTree r]
    simp only [chain, Chain.tokens, first, links, Link.placedAll_append, Link.placedAll, whole,
      List.flatMap_append, List.flatMap_cons, Chain.linkTokens, Link.placed, Link.text, Link.lead,
      Position.afterText_append, List.append_assoc, List.cons_append]

end Typeset

/-! ## Order makes the tree proper -/

/-- The width of a waiting operator. -/
def Pending.width : Pending → Nat
  | .unary _ w => w
  | .binary _ w => w

theorem pops_of_lt {op : BinaryOp} {width : Nat} {q : Pending} (h : q.width < width) : Pops op width q := by
  cases q with
  | unary o w => exact Nat.le_of_lt h
  | binary o w => exact .inl h

theorem not_pops_of_lt {op : BinaryOp} {width : Nat} {q : Pending} (h : width < q.width) :
    ¬ Pops op width q := by
  cases q with
  | unary o w =>
    change width < w at h
    simp only [Pops]
    omega
  | binary o w =>
    change width < w at h
    simp only [Pops]
    omega

namespace Typeset

theorem width_mem_of_rightSpine (t : Typeset) (p : Position) :
    ∀ q ∈ (t.spacedTree p).rightSpine, q.width ∈ t.widths := by
  match t with
  | leaf l => exact fun q hq => nomatch hq
  | unary op width t =>
    intro q hq
    rcases List.mem_cons.1 hq with rfl | hq
    · exact List.mem_cons_self
    · exact List.mem_cons_of_mem _ (width_mem_of_rightSpine t _ q hq)
  | binary op before after l r =>
    intro q hq
    rcases List.mem_cons.1 hq with rfl | hq
    · exact List.mem_cons_self
    · exact List.mem_cons_of_mem _ (List.mem_append_right _ (width_mem_of_rightSpine r _ q hq))

theorem width_mem_of_leftSpine (t : Typeset) (p : Position) :
    ∀ b ∈ (t.spacedTree p).leftSpine, b.2 ∈ t.widths := by
  match t with
  | leaf l | unary op width t => exact fun b hb => nomatch hb
  | binary op before after l r =>
    intro b hb
    rcases List.mem_cons.1 hb with rfl | hb
    · exact List.mem_cons_self
    · exact List.mem_cons_of_mem _ (List.mem_append_left _ (width_mem_of_leftSpine l _ b hb))

theorem proper_spacedTree {t : Typeset} (ht : t.Ordered) (p : Position) : (t.spacedTree p).Proper := by
  match t with
  | leaf l => trivial
  | unary op width t =>
    rw [Ordered] at ht
    exact ⟨fun b hb => not_pops_of_lt (ht.1 _ (width_mem_of_leftSpine t _ b hb)), proper_spacedTree (t := t) ht.2 _⟩
  | binary op before after l r =>
    rw [Ordered] at ht
    obtain ⟨wider, hl, hr⟩ := ht
    refine ⟨fun q hq => pops_of_lt ?_, fun b hb => not_pops_of_lt ?_, proper_spacedTree (t := l) hl _,
      proper_spacedTree (t := r) hr _⟩
    · exact wider _ (List.mem_append_left _ (width_mem_of_rightSpine l _ q hq))
    · exact wider _ (List.mem_append_right _ (width_mem_of_leftSpine r _ b hb))

/-- The fold of the chain of an ordered expression gives its tree. -/
theorem finish_chain {t : Typeset} (ht : t.Ordered) (p : Position) :
    (t.chain p).fold.finish = [t.placed p] := by
  obtain ⟨k, fed, finished⟩ := SpacedTree.feed_finish (proper_spacedTree ht p)
  rw [tokens_spacedTree] at fed
  rw [← Stack.forget_of_feed?_chain fed]
  have done := Stack.finish_of_finish? finished
  rw [List.map_singleton, expr_spacedTree] at done
  exact done

end Typeset

/-! ## Prefix operators stay apart -/

/-- Every prefix operator but the last has some space after it. -/
def Segment.Apart (s : Segment) : Prop := s.prefixes.Pairwise fun u _ => 0 < u.2

namespace Typeset

theorem width_mem_of_prefixes (t : Typeset) : ∀ u ∈ t.first.prefixes, u.2 ∈ t.widths := by
  match t with
  | leaf l => exact fun u hu => nomatch hu
  | unary op width t =>
    intro u hu
    rcases List.mem_cons.1 hu with rfl | hu
    · exact List.mem_cons_self
    · exact List.mem_cons_of_mem _ (width_mem_of_prefixes t u hu)
  | binary op before after l r =>
    exact fun u hu => List.mem_cons_of_mem _ (List.mem_append_left _ (width_mem_of_prefixes l u hu))

theorem apart_first {t : Typeset} (ht : t.Ordered) : t.first.Apart := by
  match t with
  | leaf l => exact List.Pairwise.nil
  | unary op width t =>
    rw [Ordered] at ht
    refine List.pairwise_cons.2 ⟨fun u hu => ?_, apart_first (t := t) ht.2⟩
    exact Nat.zero_lt_of_lt (ht.1 _ (width_mem_of_prefixes t u hu))
  | binary op before after l r =>
    rw [Ordered] at ht
    exact apart_first (t := l) ht.2.1

/-- What a leaf of an ordered expression says of itself. -/
theorem ordered_first {t : Typeset} (ht : t.Ordered) : t.first.leaf.Ordered := by
  match t with
  | leaf l => rwa [Ordered] at ht
  | unary op width t =>
    rw [Ordered] at ht
    exact ordered_first (t := t) ht.2
  | binary op before after l r =>
    rw [Ordered] at ht
    exact ordered_first (t := l) ht.2.1

/-- The segments of the links of an ordered expression are like the first. -/
theorem links_ordered {t : Typeset} (ht : t.Ordered) :
    ∀ k ∈ t.links, k.segment.Apart ∧ k.segment.leaf.Ordered := by
  match t with
  | leaf l => exact fun k hk => nomatch hk
  | unary op width t =>
    rw [Ordered] at ht
    exact links_ordered (t := t) ht.2
  | binary op before after l r =>
    rw [Ordered] at ht
    intro k hk
    rcases List.mem_append.1 hk with hk | hk
    · exact links_ordered (t := l) ht.2.1 k hk
    · rcases List.mem_cons.1 hk with rfl | hk
      · exact ⟨apart_first ht.2.2, ordered_first ht.2.2⟩
      · exact links_ordered (t := r) ht.2.2 k hk

end Typeset

end Gapscript
