import Gapscript.Expr.Fold

/-!
# The tree that white space stands for

A chain of operands and spaced operators has exactly one tree in which every operator respects the
operators around it (`SpacedTree.Proper`), and the fold builds that tree. Reading the tokens of a
proper tree leaves its right spine waiting (`feed_tokens`), so a proper tree is recovered from its
tokens; hanging one more operand on the right spine keeps a tree proper (`proper_attach`), so there
is one for every chain. The fold itself is followed through `Stack`, which keeps the widths in the
trees and stops where an operand is missing.
-/

namespace Gapscript

/-! ## Chains and trees -/

/-- An operand with the prefix operators in front of it. -/
structure PrefixedOperand where
  runs : List UnaryRun
  value : Expr

/-- An operand followed by binary operators, each with its width and right operand. -/
structure Chain where
  first : PrefixedOperand
  more : List (BinaryOp × Nat × PrefixedOperand)

/-- What stands in a chain: an operand, or an operator with its width. -/
inductive ChainToken where
  | operand (e : Expr)
  | operator (p : Pending)

namespace PrefixedOperand

/-- The tokens of an operand: its prefix operators, then the expression. -/
def tokens (o : PrefixedOperand) : List ChainToken :=
  o.runs.map (fun r => .operator (.unary r.op r.width)) ++ [.operand o.value]

end PrefixedOperand

namespace Chain

/-- The tokens of a binary operator and its right operand. -/
def linkTokens (l : BinaryOp × Nat × PrefixedOperand) : List ChainToken :=
  .operator (.binary l.1 l.2.1) :: l.2.2.tokens

/-- The tokens of a chain from left to right. -/
def tokens (c : Chain) : List ChainToken := c.first.tokens ++ c.more.flatMap linkTokens

/-- The fold after a binary operator and its right operand. -/
def link (f : Fold) (l : BinaryOp × Nat × PrefixedOperand) : Fold :=
  (f.pushBinary l.1 l.2.1).pushOperand l.2.2.runs l.2.2.value

/-- The fold that a chain is fed to. -/
def fold (c : Chain) : Fold :=
  c.more.foldl link (Fold.pushOperand {} c.first.runs c.first.value)

end Chain

/-- An expression tree over given operands that keeps the width of every operator. -/
inductive SpacedTree where
  | operand (e : Expr)
  | unary (op : UnaryOp) (width : Nat) (t : SpacedTree)
  | binary (op : BinaryOp) (width : Nat) (l r : SpacedTree)

/-- A binary operator pops a waiting one: a prefix operator that is at most as wide, or a binary one
that is narrower, or as wide and of a class that is not lower. -/
def Pops (op : BinaryOp) (width : Nat) : Pending → Prop
  | .unary _ w => w ≤ width
  | .binary o w => w < width ∨ w = width ∧ op.tieClass ≤ o.tieClass

theorem yields_iff_pops (p : Pending) (op : BinaryOp) (width : Nat) :
    p.yields op width = true ↔ Pops op width p := by
  cases p <;> simp [Pending.yields, Pops]

namespace SpacedTree

/-- The tree without its widths. -/
def expr : SpacedTree → Expr
  | operand e => e
  | unary op _ t => .unary op t.expr
  | binary op _ l r => .binary op l.expr r.expr

/-- The operands and operators of a tree from left to right. -/
def tokens : SpacedTree → List ChainToken
  | operand e => [.operand e]
  | unary op w t => .operator (.unary op w) :: t.tokens
  | binary op w l r => l.tokens ++ .operator (.binary op w) :: r.tokens

/-- The operators met by going down to the right: into the right operand of a binary node and into
the operand of a unary one. -/
def rightSpine : SpacedTree → List Pending
  | operand _ => []
  | unary op w t => .unary op w :: t.rightSpine
  | binary op w _ r => .binary op w :: r.rightSpine

/-- The binary operators met by going down to the left, up to the first unary node or operand. -/
def leftSpine : SpacedTree → List (BinaryOp × Nat)
  | operand _ => []
  | unary .. => []
  | binary op w l _ => (op, w) :: l.leftSpine

/-- No binary operator on the left spine pops a waiting operator. -/
def Shelters (p : Pending) (t : SpacedTree) : Prop := ∀ b ∈ t.leftSpine, ¬ Pops b.1 b.2 p

/-- Every binary node pops what is on the right spine of its left operand, and no operator is popped
by the left spine of the operand to its right. -/
def Proper : SpacedTree → Prop
  | operand _ => True
  | unary op w t => Shelters (.unary op w) t ∧ t.Proper
  | binary op w l r =>
    (∀ p ∈ l.rightSpine, Pops op w p) ∧ Shelters (.binary op w) r ∧ l.Proper ∧ r.Proper

end SpacedTree

/-! ## The fold with widths and checks -/

/-- The operands and waiting operators of a fold, as trees that keep their widths. -/
structure Stack where
  operands : List SpacedTree := []
  pending : List Pending := []

namespace Stack

/-- Applies a waiting operator; there is nothing where the stack lacks an operand for it. -/
def reduce? : Pending → List SpacedTree → Option (List SpacedTree)
  | .unary op w, t :: ts => some (.unary op w t :: ts)
  | .binary op w, r :: l :: ts => some (.binary op w l r :: ts)
  | _, _ => none

/-- Applies the waiting operators that yield to the given one. -/
def settle? (op : BinaryOp) (width : Nat) (ts : List SpacedTree) : List Pending → Option Stack
  | [] => some ⟨ts, []⟩
  | p :: ps =>
    if p.yields op width then (reduce? p ts).bind fun us => settle? op width us ps
    else some ⟨ts, p :: ps⟩

/-- Takes one token. -/
def push? (k : Stack) : ChainToken → Option Stack
  | .operand e => some { k with operands := .operand e :: k.operands }
  | .operator (.unary op w) => some { k with pending := .unary op w :: k.pending }
  | .operator (.binary op w) =>
    (settle? op w k.operands k.pending).map fun k => { k with pending := .binary op w :: k.pending }

/-- Takes tokens from left to right. -/
def feed? (k : Stack) (ts : List ChainToken) : Option Stack := ts.foldlM push? k

/-- Applies everything that waits. -/
def finish? (ts : List SpacedTree) : List Pending → Option (List SpacedTree)
  | [] => some ts
  | p :: ps => (reduce? p ts).bind fun us => finish? us ps

/-- The fold that the stack is a view of. -/
def forget (k : Stack) : Fold := ⟨k.operands.map SpacedTree.expr, k.pending⟩

theorem feed?_append (k : Stack) (ts us : List ChainToken) :
    k.feed? (ts ++ us) = (k.feed? ts).bind fun k => k.feed? us := List.foldlM_append

theorem feed?_cons (k : Stack) (t : ChainToken) (ts : List ChainToken) :
    k.feed? (t :: ts) = (k.push? t).bind fun k => k.feed? ts := List.foldlM_cons

theorem apply_of_reduce? {p : Pending} {ts us : List SpacedTree} (h : reduce? p ts = some us) :
    p.apply (ts.map SpacedTree.expr) = us.map SpacedTree.expr := by
  unfold reduce? at h
  split at h
  · cases h; rfl
  · cases h; rfl
  · cases h

theorem settle_of_settle? {op : BinaryOp} {w : Nat} {ts : List SpacedTree} {ps : List Pending}
    {k : Stack} (h : settle? op w ts ps = some k) :
    Fold.settle op w (ts.map SpacedTree.expr) ps = k.forget := by
  induction ps generalizing ts with
  | nil => cases h; rfl
  | cons p ps ih =>
    rw [settle?] at h
    rw [Fold.settle]
    split at h
    · next hp =>
      obtain ⟨us, hus, h⟩ := Option.bind_eq_some_iff.1 h
      rw [if_pos hp, apply_of_reduce? hus]
      exact ih h
    · next hp =>
      rw [if_neg hp]
      cases h
      rfl

theorem finish_of_finish? {ts us : List SpacedTree} {ps : List Pending} (h : finish? ts ps = some us) :
    (Fold.mk (ts.map SpacedTree.expr) ps).finish = us.map SpacedTree.expr := by
  induction ps generalizing ts with
  | nil => cases h; rfl
  | cons p ps ih =>
    obtain ⟨vs, hvs, h⟩ := Option.bind_eq_some_iff.1 h
    rw [← ih h, ← apply_of_reduce? hvs]
    rfl

theorem feed?_runs (k : Stack) (runs : List UnaryRun) :
    k.feed? (runs.map fun r => .operator (.unary r.op r.width)) =
      some ⟨k.operands, runs.foldl (fun ps r => .unary r.op r.width :: ps) k.pending⟩ := by
  induction runs generalizing k with
  | nil => rfl
  | cons r runs ih => rw [List.map_cons, feed?_cons]; exact ih _

/-- Feeding an operand never fails, and is what the fold does. -/
theorem feed?_operand (k : Stack) (o : PrefixedOperand) :
    ∃ k', k.feed? o.tokens = some k' ∧ k'.forget = k.forget.pushOperand o.runs o.value := by
  rw [PrefixedOperand.tokens, feed?_append, feed?_runs]
  exact ⟨_, rfl, rfl⟩

/-- Where feeding a binary operator and its right operand does not fail, it is what the fold does. -/
theorem forget_of_feed?_link {k k' : Stack} {l : BinaryOp × Nat × PrefixedOperand}
    (h : k.feed? (Chain.linkTokens l) = some k') : k'.forget = Chain.link k.forget l := by
  rw [Chain.linkTokens, feed?_cons] at h
  obtain ⟨m, hm, h⟩ := Option.bind_eq_some_iff.1 h
  obtain ⟨settled, hsettled, rfl⟩ := Option.map_eq_some_iff.1 hm
  obtain ⟨k'', hk'', hforget⟩ := feed?_operand { settled with pending := .binary l.1 l.2.1 :: settled.pending } l.2.2
  rw [h] at hk''
  cases hk''
  rw [hforget, Chain.link, Fold.pushBinary]
  have hs : Fold.settle l.1 l.2.1 k.forget.operands k.forget.pending = settled.forget :=
    settle_of_settle? hsettled
  rw [hs]
  rfl

theorem forget_of_feed?_links {k k' : Stack} {ls : List (BinaryOp × Nat × PrefixedOperand)}
    (h : k.feed? (ls.flatMap Chain.linkTokens) = some k') : k'.forget = ls.foldl Chain.link k.forget := by
  induction ls generalizing k with
  | nil => cases h; rfl
  | cons l ls ih =>
    rw [List.flatMap_cons, feed?_append] at h
    obtain ⟨m, hm, h⟩ := Option.bind_eq_some_iff.1 h
    rw [ih h, forget_of_feed?_link hm]
    rfl

/-- Where feeding a chain does not fail, it is what the fold does. -/
theorem forget_of_feed?_chain {c : Chain} {k : Stack} (h : Stack.feed? {} c.tokens = some k) :
    k.forget = c.fold := by
  rw [Chain.tokens, feed?_append] at h
  obtain ⟨m, hm, h⟩ := Option.bind_eq_some_iff.1 h
  obtain ⟨m', hm', hforget⟩ := feed?_operand {} c.first
  rw [hm] at hm'
  cases hm'
  rw [forget_of_feed?_links h, hforget]
  rfl

end Stack

/-! ## A proper tree is recovered from its tokens -/

namespace SpacedTree

/-- The stack on which a tree has been read up to its end: its right spine waits, with what stands
to the left of it below. -/
def unfinished : SpacedTree → Stack → Stack
  | operand e, k => { k with operands := .operand e :: k.operands }
  | unary op w t, k => t.unfinished { k with pending := .unary op w :: k.pending }
  | binary op w l r, k => r.unfinished ⟨l :: k.operands, .binary op w :: k.pending⟩

/-- An operator that pops the whole right spine completes the tree first. -/
theorem settle?_unfinished {op : BinaryOp} {w : Nat} {t : SpacedTree}
    (h : ∀ p ∈ t.rightSpine, Pops op w p) (k : Stack) :
    Stack.settle? op w (t.unfinished k).operands (t.unfinished k).pending =
      Stack.settle? op w (t :: k.operands) k.pending := by
  induction t generalizing k with
  | operand e => rfl
  | unary u wu t ih =>
    rw [rightSpine, List.forall_mem_cons] at h
    rw [unfinished, ih h.2, Stack.settle?, if_pos ((yields_iff_pops _ _ _).2 h.1)]
    rfl
  | binary o wo l r _ ih =>
    rw [rightSpine, List.forall_mem_cons] at h
    rw [unfinished, ih h.2, Stack.settle?, if_pos ((yields_iff_pops _ _ _).2 h.1)]
    rfl

theorem finish?_unfinished (t : SpacedTree) (k : Stack) :
    Stack.finish? (t.unfinished k).operands (t.unfinished k).pending =
      Stack.finish? (t :: k.operands) k.pending := by
  induction t generalizing k with
  | operand e => rfl
  | unary u wu t ih => rw [unfinished, ih]; rfl
  | binary o wo l r _ ih => rw [unfinished, ih]; rfl

/-- A binary operator that does not pop what waits on top leaves the stack as it is. -/
theorem settle?_of_sheltered {op : BinaryOp} {w : Nat} {ps : List Pending}
    (h : ∀ p ∈ ps.head?, ¬ Pops op w p) (ts : List SpacedTree) :
    Stack.settle? op w ts ps = some ⟨ts, ps⟩ := by
  cases ps with
  | nil => rfl
  | cons p ps =>
    have hp : ¬ Pops op w p := h p rfl
    rw [Stack.settle?, if_neg (mt (yields_iff_pops _ _ _).1 hp)]

/-- Reading a proper tree whose left spine pops nothing that waits leaves it unfinished. -/
theorem feed_tokens {t : SpacedTree} (ht : t.Proper) (k : Stack)
    (hk : ∀ p ∈ k.pending.head?, t.Shelters p) : k.feed? t.tokens = some (t.unfinished k) := by
  induction t generalizing k with
  | operand e => rfl
  | unary u wu t ih =>
    rw [tokens, Stack.feed?_cons]
    refine ih ht.2 _ fun p hp => ?_
    cases hp
    exact ht.1
  | binary o wo l r ihl ihr =>
    obtain ⟨hl, hr, hlp, hrp⟩ := ht
    rw [tokens, Stack.feed?_append, ihl hlp k fun p hp b hb => hk p hp b (List.mem_cons_of_mem _ hb)]
    rw [Option.bind_some, Stack.feed?_cons, Stack.push?, settle?_unfinished hl k,
      settle?_of_sheltered fun p hp => hk p hp (o, wo) List.mem_cons_self]
    refine ihr hrp _ fun p hp => ?_
    cases hp
    exact hr

/-- A proper tree, read from an empty stack and finished, is back. -/
theorem feed_finish {t : SpacedTree} (ht : t.Proper) :
    ∃ k, Stack.feed? {} t.tokens = some k ∧ Stack.finish? k.operands k.pending = some [t] := by
  refine ⟨t.unfinished {}, feed_tokens ht {} (fun p hp => nomatch hp), ?_⟩
  rw [finish?_unfinished]
  rfl

/-- A proper tree is determined by its tokens. -/
theorem eq_of_tokens_eq {t u : SpacedTree} (ht : t.Proper) (hu : u.Proper) (h : t.tokens = u.tokens) :
    t = u := by
  obtain ⟨k, hk, hkt⟩ := feed_finish ht
  obtain ⟨m, hm, hmu⟩ := feed_finish hu
  rw [h, hm] at hk
  cases hk
  rw [hmu] at hkt
  cases hkt
  rfl

/-! ## Every chain has a proper tree -/

/-- The tree of an operand under its prefix operators. -/
def ofPrefixed (o : PrefixedOperand) : SpacedTree :=
  o.runs.foldr (fun r t => .unary r.op r.width t) (.operand o.value)

theorem tokens_ofPrefixed (o : PrefixedOperand) : (ofPrefixed o).tokens = o.tokens := by
  obtain ⟨runs, e⟩ := o
  induction runs with
  | nil => rfl
  | cons r runs ih => exact congrArg (_ :: ·) ih

theorem leftSpine_ofPrefixed (o : PrefixedOperand) : (ofPrefixed o).leftSpine = [] := by
  obtain ⟨runs, e⟩ := o
  cases runs <;> rfl

theorem shelters_ofPrefixed (p : Pending) (o : PrefixedOperand) : (ofPrefixed o).Shelters p := by
  intro b hb
  rw [leftSpine_ofPrefixed] at hb
  cases hb

theorem proper_ofPrefixed (o : PrefixedOperand) : (ofPrefixed o).Proper := by
  obtain ⟨runs, e⟩ := o
  induction runs with
  | nil => trivial
  | cons r runs ih => exact ⟨shelters_ofPrefixed _ ⟨runs, e⟩, ih⟩

/-- The operator pops everything on the right spine of a tree. -/
def clears (op : BinaryOp) (w : Nat) (t : SpacedTree) : Bool := t.rightSpine.all fun p => p.yields op w

theorem clears_iff {op : BinaryOp} {w : Nat} {t : SpacedTree} :
    clears op w t = true ↔ ∀ p ∈ t.rightSpine, Pops op w p := by
  simp only [clears, List.all_eq_true, yields_iff_pops]

/-- Hangs an operator with its right operand on the right spine of a tree, as high as it pops
everything below. -/
def attach (op : BinaryOp) (w : Nat) (s : SpacedTree) : SpacedTree → SpacedTree
  | operand e => binary op w (operand e) s
  | unary u wu t =>
    if clears op w (unary u wu t) then binary op w (unary u wu t) s else unary u wu (attach op w s t)
  | binary o wo l r =>
    if clears op w (binary o wo l r) then binary op w (binary o wo l r) s
    else binary o wo l (attach op w s r)

theorem tokens_attach (op : BinaryOp) (w : Nat) (s t : SpacedTree) :
    (attach op w s t).tokens = t.tokens ++ .operator (.binary op w) :: s.tokens := by
  induction t with
  | operand e => rfl
  | unary u wu t ih =>
    rw [attach]
    split
    · rfl
    · rw [tokens, ih]; rfl
  | binary o wo l r _ ih =>
    rw [attach]
    split
    · rfl
    · rw [tokens, ih, tokens, List.append_assoc]; rfl

/-- Hanging an operand below a sheltered tree keeps it sheltered, as long as the operator does not
pop its way out. -/
theorem shelters_attach {op : BinaryOp} {w : Nat} {s t : SpacedTree} {p : Pending}
    (ht : t.Shelters p) (hp : clears op w t = true → ¬ Pops op w p) : (attach op w s t).Shelters p := by
  have top (h : clears op w t = true) : (binary op w t s).Shelters p := by
    intro b hb
    rcases List.mem_cons.1 hb with rfl | hb
    · exact hp h
    · exact ht b hb
  cases t with
  | operand e => exact top rfl
  | unary u wu t =>
    rw [attach]
    split
    · next h => exact top h
    · exact fun b hb => nomatch hb
  | binary o wo l r =>
    rw [attach]
    split
    · next h => exact top h
    · exact ht

theorem proper_attach {op : BinaryOp} {w : Nat} {s t : SpacedTree} (ht : t.Proper) (hs : s.Proper)
    (shelter : s.Shelters (.binary op w)) : (attach op w s t).Proper := by
  have top (u : SpacedTree) (hu : u.Proper) (h : clears op w u = true) : (binary op w u s).Proper :=
    ⟨clears_iff.1 h, shelter, hu, hs⟩
  induction t with
  | operand e => exact top _ ht rfl
  | unary u wu t ih =>
    rw [attach]
    split
    · next h => exact top _ ht h
    · next h =>
      refine ⟨shelters_attach ht.1 fun hc hp => h ?_, ih ht.2⟩
      exact clears_iff.2 (List.forall_mem_cons.2 ⟨hp, clears_iff.1 hc⟩)
  | binary o wo l r _ ih =>
    obtain ⟨hl, hr, hlp, hrp⟩ := ht
    rw [attach]
    split
    · next h => exact top _ ⟨hl, hr, hlp, hrp⟩ h
    · next h =>
      refine ⟨hl, shelters_attach hr fun hc hp => h ?_, hlp, ih hrp⟩
      exact clears_iff.2 (List.forall_mem_cons.2 ⟨hp, clears_iff.1 hc⟩)

theorem exists_proper_links (t : SpacedTree) (ht : t.Proper) (ls : List (BinaryOp × Nat × PrefixedOperand)) :
    ∃ u : SpacedTree, u.Proper ∧ u.tokens = t.tokens ++ ls.flatMap Chain.linkTokens := by
  induction ls generalizing t with
  | nil => exact ⟨t, ht, by simp⟩
  | cons l ls ih =>
    obtain ⟨op, w, o⟩ := l
    have hs := proper_ofPrefixed o
    obtain ⟨u, hu, htokens⟩ := ih _ (proper_attach ht hs (shelters_ofPrefixed (.binary op w) o))
    refine ⟨u, hu, ?_⟩
    rw [htokens, tokens_attach, tokens_ofPrefixed, List.flatMap_cons, Chain.linkTokens,
      List.append_assoc]

theorem exists_proper (c : Chain) : ∃ t : SpacedTree, t.Proper ∧ t.tokens = c.tokens := by
  obtain ⟨t, ht, htokens⟩ := exists_proper_links _ (proper_ofPrefixed c.first) c.more
  exact ⟨t, ht, by rw [htokens, tokens_ofPrefixed, Chain.tokens]⟩

end SpacedTree

/-! ## The fold builds the proper tree -/

/-- Feeding a chain to the fold never lacks an operand and ends with one tree. It is the only tree
over the tokens of the chain in which every operator respects the operators around it. -/
theorem fold_builds_proper_tree (c : Chain) :
    ∃ (k : Stack) (t : SpacedTree),
      Stack.feed? {} c.tokens = some k ∧ k.forget = c.fold ∧
      Stack.finish? k.operands k.pending = some [t] ∧ c.fold.finish = [t.expr] ∧
      t.tokens = c.tokens ∧ t.Proper ∧
      ∀ u : SpacedTree, u.tokens = c.tokens → u.Proper → u = t := by
  obtain ⟨t, ht, htokens⟩ := SpacedTree.exists_proper c
  obtain ⟨k, hk, hfinish⟩ := SpacedTree.feed_finish ht
  rw [htokens] at hk
  have hforget : k.forget = c.fold := Stack.forget_of_feed?_chain hk
  refine ⟨k, t, hk, hforget, hfinish, ?_, htokens, ht, fun u hu hup => ?_⟩
  · rw [← hforget]
    exact Stack.finish_of_finish? hfinish
  · exact SpacedTree.eq_of_tokens_eq hup ht (hu.trans htokens.symm)

end Gapscript
