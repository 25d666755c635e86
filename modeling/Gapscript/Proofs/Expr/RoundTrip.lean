import Gapscript.Proofs.Expr.Typeset
import Gapscript.Proofs.Reading.Expression
import Gapscript.Scope.State

/-!
# Expressions read back

Where no name is bound, the text of an expression whose operators are ordered by width reads as its
tree (`spaces_express_every_tree`). Each production of the reader is followed over the text that it
is given: the prefix operators and the leaf of a segment, the links one after the other, the
elements of an array. What comes after a text never continues it (`Closes`, `Ends`).
-/

namespace Gapscript

open Lexical Reading

/-! ## What expressions begin with -/

/-- A character that a leaf begins with. -/
def beginsLeaf (c : Char) : Bool := c.isDigit || ['t', 'f', 'n', 'u', '"', '['].contains c

/-- A character that an expression begins with. -/
def beginsExpr (c : Char) : Bool := beginsLeaf c || c == '-' || c == ';'

theorem ne_of_beginsExpr {c d : Char} (hc : beginsExpr c = true) (hd : beginsExpr d = false) : c ≠ d := by
  rintro rfl
  rw [hc] at hd
  cases hd

theorem ne_of_beginsLeaf {c d : Char} (hc : beginsLeaf c = true) (hd : beginsLeaf d = false) : c ≠ d := by
  rintro rfl
  rw [hc] at hd
  cases hd

theorem beginsExpr_of_beginsLeaf {c : Char} (hc : beginsLeaf c = true) : beginsExpr c = true := by
  simp [beginsExpr, hc]

theorem unaryOfChar?_of_beginsLeaf {c : Char} (hc : beginsLeaf c = true) : unaryOfChar? c = none := by
  have minus : c ≠ '-' := ne_of_beginsLeaf hc (by decide)
  have semicolon : c ≠ ';' := ne_of_beginsLeaf hc (by decide)
  simp [unaryOfChar?, minus, semicolon]

theorem unaryOfChar?_token (op : UnaryOp) : ∃ c, op.token.toList = [c] ∧ unaryOfChar? c = some op := by
  cases op <;> exact ⟨_, rfl, rfl⟩

theorem Literal.exists_text_eq (l : Literal) : ∃ x xs, l.text = x :: xs ∧ beginsLeaf x = true := by
  cases l with
  | bigint n =>
    obtain ⟨x, xs, hx⟩ := List.exists_cons_of_ne_nil (Nat.toDigits_ne_nil (n := n) (b := 10))
    have digit : x.isDigit = true :=
      isDigit_of_mem_toDigits (n := n) (by rw [hx]; exact List.mem_cons_self)
    exact ⟨x, xs ++ ['n'], by rw [text, hx, List.cons_append], by simp [beginsLeaf, digit]⟩
  | boolean b => cases b <;> exact ⟨_, _, rfl, by decide⟩
  | null | undefined | string s => exact ⟨_, _, rfl, by decide⟩

theorem Leaf.exists_text_eq (l : Leaf) : ∃ x xs, l.text = x :: xs ∧ beginsLeaf x = true := by
  cases l with
  | literal l =>
    rw [Leaf.text]
    exact l.exists_text_eq
  | array es => exact ⟨'[', Typeset.closing es, by rw [Leaf.text], by decide⟩

theorem exists_leadOf_eq (us : List (UnaryOp × Nat)) {x : Char} (hx : beginsExpr x = true) (xs : Text) :
    ∃ y ys, leadOf us ++ x :: xs = y :: ys ∧ beginsExpr y = true := by
  cases us with
  | nil => exact ⟨x, xs, rfl, hx⟩
  | cons u us =>
    obtain ⟨op, width⟩ := u
    obtain ⟨c, token, hc⟩ := unaryOfChar?_token op
    have begins : beginsExpr c = true := by
      cases op <;> cases token <;> decide
    exact ⟨c, spaces width ++ leadOf us ++ x :: xs, by simp [leadOf_cons, token], begins⟩

theorem Segment.exists_text_eq (s : Segment) : ∃ x xs, s.text = x :: xs ∧ beginsExpr x = true := by
  obtain ⟨x, xs, hl, hx⟩ := s.leaf.exists_text_eq
  rw [text, hl]
  exact exists_leadOf_eq _ (beginsExpr_of_beginsLeaf hx) xs

theorem Typeset.exists_text_eq (t : Typeset) : ∃ x xs, t.text = x :: xs ∧ beginsExpr x = true := by
  obtain ⟨x, xs, hs, hx⟩ := t.first.exists_text_eq
  exact ⟨x, xs ++ t.links.flatMap Link.text, by rw [Typeset.text_eq, hs, List.cons_append], hx⟩

/-! ## White space -/

theorem gap_spaces (n : Nat) (t : Text) : gap (spaces n ++ t) = n + gap t := by
  have layout : ∀ x ∈ spaces n, isLayout x = true := by
    intro x inside
    rw [List.eq_of_mem_replicate inside]
    rfl
  rw [gap_layout layout, spaces, List.length_replicate]

theorem gap_of_beginsExpr {x : Char} (hx : beginsExpr x = true) (xs : Text) : gap (x :: xs) = 0 := by
  have ne {d : Char} (hd : beginsExpr d = false) : x ≠ d := ne_of_beginsExpr hx hd
  have layout : isLayout x = false := by
    simp [isLayout, ne (d := ' ') (by decide), ne (d := '\t') (by decide), ne (d := '\r') (by decide),
      ne (d := '\n') (by decide), ne (d := '(') (by decide), ne (d := ')') (by decide)]
  simp [gap, gapFrom, layout, ne (d := '/') (by decide)]

/-- The gap before an expression is the spaces in front of it. -/
theorem gap_spaces_expr (n : Nat) {t : Text} (ht : ∃ x xs, t = x :: xs ∧ beginsExpr x = true) :
    gap (spaces n ++ t) = n := by
  obtain ⟨x, xs, rfl, hx⟩ := ht
  rw [gap_spaces, gap_of_beginsExpr hx, Nat.add_zero]

theorem skipGap_spaces {n : Nat} {t : Text} (ht : gap (spaces n ++ t) = n) (p : Position) :
    skipGap ⟨spaces n ++ t, p⟩ = ⟨t, p.afterText (spaces n)⟩ := by
  have passed := skip_append (spaces n) t p
  rw [spaces, List.length_replicate, ← spaces] at passed
  rw [skipGap, ht]
  exact passed

theorem skipGap_of_gap_eq_zero {c : Cursor} (h : gap c.rest = 0) : skipGap c = c := by
  rw [skipGap, h, Cursor.skip_zero]

/-! ## Operators -/

/-- An operator that no `=` follows is read. -/
theorem binaryOperator_token (op : BinaryOp) {t : Text} (ht : t.head? ≠ some '=') (p : Position) :
    binaryOperator ⟨op.token.toList ++ t, p⟩ = .ok (op, ⟨t, p.afterText op.token.toList⟩) := by
  have found : (BinaryOp.all.find? fun o => Cursor.startsWith ⟨op.token.toList ++ t, p⟩ o.token) =
      some op := by
    cases t with
    | nil => cases op <;> rfl
    | cons x xs =>
      have differ : '=' ≠ x := fun h => ht (by rw [← h]; rfl)
      cases op <;> simp [BinaryOp.all, BinaryOp.token, Cursor.startsWith, List.isPrefixOf, differ]
  have plain : Cursor.startsWith ⟨t, p.afterText op.token.toList⟩ "=" = false := by
    cases t with
    | nil => rfl
    | cons x xs =>
      have differ : '=' ≠ x := fun h => ht (by rw [← h]; rfl)
      simp [Cursor.startsWith, List.isPrefixOf, differ]
  simp only [binaryOperator, found]
  rw [← String.length_toList, skip_append, plain]
  rfl

/-- No white space comes before an operator that no `/` follows. -/
theorem gap_token (op : BinaryOp) {t : Text} (ht : t.head? ≠ some '/') :
    gap (op.token.toList ++ t) = 0 := by
  cases op with
  | div =>
    have slash : isLayout '/' = false := by decide
    simp [BinaryOp.token, gap, gapFrom, slash, ht]
  | _ => rfl

theorem runsFrom_spaces (runs : List UnaryRun) (n : Nat) (t : Text) :
    runsFrom runs n (spaces n ++ t) = ((runsFrom runs 0 t).1, (runsFrom runs 0 t).2 + n) := by
  induction n with
  | zero => rfl
  | succ n ih =>
    change runsFrom runs (n + 1) (' ' :: (spaces n ++ t)) = _
    rw [runsFrom, ih]
    rfl

/-- Prefix operators in front of a leaf are read one by one, as long as those that have been read and
those that follow do not run into each other. -/
theorem runsFrom_leadOf {us : List (UnaryOp × Nat)} (apart : us.Pairwise fun u _ => 0 < u.2)
    {runs : List UnaryRun} (before : us ≠ [] → ∀ r ∈ runs.head?, 0 < r.width) {x : Char}
    (hx : beginsLeaf x = true) (xs : Text) :
    runsFrom runs 0 (leadOf us ++ x :: xs) = ((us.map aloneRun).reverse ++ runs, (leadOf us).length) := by
  induction us generalizing runs with
  | nil =>
    change runsFrom runs 0 (x :: xs) = _
    rw [runsFrom, unaryOfChar?_of_beginsLeaf hx]
    rfl
  | cons u us ih =>
    obtain ⟨op, width⟩ := u
    obtain ⟨later, apart⟩ := List.pairwise_cons.1 apart
    obtain ⟨c, token, hc⟩ := unaryOfChar?_token op
    have begins := exists_leadOf_eq us (beginsExpr_of_beginsLeaf hx) xs
    have extended : UnaryRun.extend op width runs = aloneRun (op, width) :: runs := by
      cases runs with
      | nil => rfl
      | cons r rs =>
        have wide : r.width ≠ 0 := Nat.ne_of_gt (before (List.cons_ne_nil _ _) r rfl)
        rw [UnaryRun.extend, if_neg fun h => wide h.2]
        rfl
    have before : us ≠ [] → ∀ r ∈ (aloneRun (op, width) :: runs).head?, 0 < r.width := by
      rintro some r ⟨⟩
      obtain ⟨v, vs, rfl⟩ := List.exists_cons_of_ne_nil some
      exact later v List.mem_cons_self
    have rest := ih apart before
    rw [leadOf_cons, token, List.append_assoc, List.append_assoc, List.singleton_append, runsFrom, hc]
    simp only [gap_spaces_expr width begins, extended, runsFrom_spaces, rest]
    simp [spaces]
    omega

theorem collapse_aloneRun (us : List (UnaryOp × Nat)) :
    UnaryRun.collapse (us.map aloneRun) = us.map aloneRun := by
  have kept (ks : List UnaryRun) :
      (us.map aloneRun).foldl UnaryRun.keep ks = (us.map aloneRun).reverse ++ ks := by
    induction us generalizing ks with
    | nil => rfl
    | cons u us ih =>
      rw [List.map_cons, List.foldl_cons, ih, List.reverse_cons, List.append_assoc]
      rfl
  rw [UnaryRun.collapse, kept, List.append_nil, List.reverse_reverse]

/-- The prefix operators of a segment are read up to its leaf. -/
theorem unaryRuns_segment {s : Segment} (hs : s.Apart) (k : Text) (p : Position) :
    unaryRuns ⟨s.text ++ k, p⟩ = (s.prefixes.map aloneRun, ⟨s.leaf.text ++ k, p.afterText s.lead⟩) := by
  obtain ⟨x, xs, hl, hx⟩ := s.leaf.exists_text_eq
  have fresh : s.prefixes ≠ [] → ∀ r ∈ ([] : List UnaryRun).head?, 0 < r.width := fun _ r hr => nomatch hr
  have read := runsFrom_leadOf hs fresh hx (xs ++ k)
  have passed := skip_append s.lead (s.leaf.text ++ k) p
  rw [← List.cons_append, ← hl] at read
  rw [Segment.text, List.append_assoc, unaryRuns]
  simp only [Segment.lead] at passed ⊢
  rw [read, List.append_nil, List.reverse_reverse, passed]

/-! ## Leaves -/

/-- No name stands for anything. -/
def Names.Silent (names : Names) : Prop :=
  (∀ name, names.value? name = none) ∧ ∀ strict name, names.callee? strict name = none

/-- A text that does not continue the leaf before it. -/
def Closes (k : Text) : Prop :=
  startsWord k = false ∧ endsQuote k = true ∧ k.head? ≠ some '.' ∧ k.head? ≠ some '['

/-- Where an expression under a terminator has to stop: nothing continues its last leaf, and after
white space the text or the expression is at its end. -/
def Ends (term : Terminator) (k : Text) : Prop :=
  Closes k ∧ (k.drop (gap k) = [] ∨ term (k.drop (gap k)) = true)

/-- A terminator that no operator meets. -/
def Terminator.Spares (term : Terminator) : Prop := ∀ (op : BinaryOp) t, term (op.token.toList ++ t) = false

theorem literal_text (l : Literal) {k : Text} (hk : Closes k) (p : Position) :
    literal ⟨l.text ++ k, p⟩ = .ok (l.value, ⟨k, p.afterText l.text⟩) := by
  obtain ⟨word, quote, -, -⟩ := hk
  cases l with
  | bigint n =>
    have read := literal_bigint n word p
    rw [Literal.text, List.append_assoc]
    exact read
  | boolean b => exact literal_boolean b word p
  | null => exact literal_null word p
  | undefined => exact literal_undefined word p
  | string s =>
    have read := literal_inQuotes s.toList quote p
    rw [String.ofList_toList] at read
    exact read

/-- A bracket does not begin a literal. -/
theorem literal_bracket (t : Text) (p : Position) :
    ∃ e, literal ⟨'[' :: t, p⟩ = .error e := by
  have noWord : firstWord? ⟨'[' :: t, p⟩ literalWords = none := firstWord?_eq_none (by decide) p
  have noNumeral : numeral ('[' :: t) = .error "expected a literal" := rfl
  refine ⟨noMatch ⟨'[' :: t, p⟩ "expected a literal", ?_⟩
  rw [literal, noWord]
  simp only [number, noNumeral]
  rfl

section Productions

variable {names : Names} {self : ExprReader} {n : Nat}

/-- No call is read where the name stands for nothing that can be called. -/
theorem call_of_uncallable (self : ExprReader) {strict : Bool} {c : Cursor}
    (uncallable : ∀ r, bindingName c = .ok r → names.callee? strict r.1 = none) (term : Terminator)
    (l : List String) : ∃ e, call names self strict term c l = .error (.mismatch e) l := by
  cases hname : bindingName c with
  | error e => exact ⟨e, by rw [call, hname]; rfl⟩
  | ok r =>
    refine ⟨noMatch c ("not a function: " ++ r.1), ?_⟩
    have read : Reading.ofExcept (bindingName c) l = .ok r l := by rw [hname]; rfl
    rw [call]
    refine (bind_of_ok read).trans ?_
    dsimp only
    rw [uncallable r hname]
    rfl

theorem call_of_silent (self : ExprReader) (silent : names.Silent) (strict : Bool) (term : Terminator) (c : Cursor)
    (l : List String) : ∃ e, call names self strict term c l = .error (.mismatch e) l :=
  call_of_uncallable self (fun r _ => silent.2 strict r.1) term l

/-- No variable is read where no name stands for a value. -/
theorem variableName_of_silent (silent : ∀ name, names.value? name = none) (c : Cursor) (l : List String) :
    ∃ e, variableName names c l = .error (.mismatch e) l := by
  cases hname : bindingName c with
  | error e => exact ⟨e, by rw [variableName, hname]; rfl⟩
  | ok r =>
    refine ⟨noMatch c ("not a variable: " ++ r.1), ?_⟩
    have read : Reading.ofExcept (bindingName c) l = .ok r l := by rw [hname]; rfl
    rw [variableName]
    refine (bind_of_ok read).trans ?_
    dsimp only
    rw [silent]
    rfl

/-- The reader reads back every ordered expression of fewer than `n` characters. -/
def ReadsBack (n : Nat) (self : ExprReader) : Prop :=
  ∀ t : Typeset, t.Ordered → ∀ term : Terminator, term.Spares → ∀ k, Ends term k →
    (t.text ++ k).length < n → ∀ p l,
      self term ⟨t.text ++ k, p⟩ l = .ok (t.placed p, ⟨k, p.afterText t.text⟩) l

theorem spares_brackets : (Terminator.tokens [",", "]"]).Spares := by
  intro op t
  cases op <;> rfl

theorem ends_comma (t : Text) : Ends (Terminator.tokens [",", "]"]) (',' :: t) :=
  ⟨⟨rfl, rfl, nofun, nofun⟩, .inr rfl⟩

theorem ends_bracket (t : Text) : Ends (Terminator.tokens [",", "]"]) (']' :: t) :=
  ⟨⟨rfl, rfl, nofun, nofun⟩, .inr rfl⟩

theorem skipGap_typeset (t : Typeset) (k : Text) (p : Position) :
    skipGap ⟨t.text ++ k, p⟩ = ⟨t.text ++ k, p⟩ := by
  obtain ⟨x, xs, ht, hx⟩ := t.exists_text_eq
  rw [ht, List.cons_append]
  exact skipGap_of_gap_eq_zero (gap_of_beginsExpr hx _)

theorem consume?_typeset {s : String} {d : Char} {ds : Text} (hs : s.toList = d :: ds)
    (hd : beginsExpr d = false) (t : Typeset) (k : Text) (p : Position) :
    Cursor.consume? ⟨t.text ++ k, p⟩ s = none := by
  obtain ⟨x, xs, ht, hx⟩ := t.exists_text_eq
  rw [ht, List.cons_append]
  exact consume?_eq_none hs (ne_of_beginsExpr hx hd).symm p

/-- The elements of an array are read up to the bracket that closes it. -/
theorem arrayElements_closing (hself : ReadsBack n self) {es : List Typeset}
    (ordered : Typeset.AllOrdered es) {k : Text} (hn : (Typeset.closing es ++ k).length < n) {fuel : Nat}
    (hfuel : (Typeset.closing es ++ k).length < fuel) (p : Position) (l : List String) :
    arrayElements self fuel ⟨Typeset.closing es ++ k, p⟩ l =
      .ok (Typeset.placedAll es p, ⟨k, p.afterText (Typeset.closing es)⟩) l := by
  induction es generalizing fuel p with
  | nil =>
    obtain ⟨fuel, rfl⟩ : ∃ m, fuel = m + 1 := ⟨fuel - 1, by omega⟩
    rw [arrayElements]
    rfl
  | cons e es ih =>
    obtain ⟨fuel, rfl⟩ : ∃ m, fuel = m + 1 := ⟨fuel - 1, by omega⟩
    rw [Typeset.AllOrdered] at ordered
    rw [arrayElements]
    cases es with
    | nil =>
      rw [Typeset.closing] at hn hfuel ⊢
      dsimp only at hn hfuel ⊢
      rw [List.append_assoc] at hn ⊢
      rw [skipGap_typeset, consume?_typeset rfl (by decide)]
      have read := hself e ordered.1 _ spares_brackets _ (ends_bracket k) hn p l
      refine (bind_of_ok read).trans ?_
      rw [Typeset.placedAll, Typeset.placedAll, Position.afterText_append]
      rfl
    | cons e' es =>
      rw [Typeset.closing] at hn hfuel ⊢
      dsimp only at hn hfuel ⊢
      rw [List.append_assoc, List.cons_append] at hn ⊢
      rw [skipGap_typeset, consume?_typeset rfl (by decide)]
      have read := hself e ordered.1 _ spares_brackets _ (ends_comma _) hn p l
      refine (bind_of_ok read).trans ?_
      have shorter : (Typeset.closing (e' :: es) ++ k).length < fuel ∧
          (Typeset.closing (e' :: es) ++ k).length < n := by
        simp only [List.length_append, List.length_cons] at hn hfuel ⊢
        omega
      have rest := ih ordered.2 shorter.2 shorter.1 ((p.afterText e.text).after ',')
      refine (bind_of_ok rest).trans ?_
      rw [Typeset.placedAll, Position.afterText_append]
      rfl

/-- A leaf is read as what it stands for. -/
theorem base_leaf (silent : names.Silent) (hself : ReadsBack n self) {lf : Leaf} (ordered : lf.Ordered)
    {fuel : Nat} (term : Terminator) {k : Text} (hk : Closes k) (hn : (lf.text ++ k).length ≤ n)
    (hfuel : (lf.text ++ k).length ≤ fuel) (p : Position) (l : List String) :
    base names self fuel term ⟨lf.text ++ k, p⟩ l =
      .ok (lf.placedBase p, ⟨k, p.afterText lf.text⟩) l := by
  obtain ⟨e, noCall⟩ := call_of_silent self silent true term ⟨lf.text ++ k, p⟩ l
  obtain ⟨e', noVariable⟩ := variableName_of_silent silent.1 ⟨lf.text ++ k, p⟩ l
  rw [base, firstOf_of_mismatch noCall, firstOf_of_mismatch noVariable]
  cases lf with
  | literal lit =>
    rw [Leaf.text, Leaf.placedBase]
    refine firstOf_of_ok ?_
    rw [literalBase, literal_text lit hk]
    rfl
  | array es =>
    rw [Leaf.Ordered] at ordered
    rw [Leaf.text, Leaf.placedBase]
    rw [Leaf.text] at hn hfuel
    obtain ⟨e, noLiteral⟩ := literal_bracket (Typeset.closing es ++ k) p
    have read := arrayElements_closing hself ordered hn hfuel (p.after '[') l
    have noBase : literalBase ⟨'[' :: Typeset.closing es ++ k, p⟩ l = .error (.mismatch e) l := by
      rw [literalBase, List.cons_append, noLiteral]
      rfl
    have noObject : object self fuel ⟨'[' :: Typeset.closing es ++ k, p⟩ l =
        .error (.mismatch (noMatch ⟨'[' :: Typeset.closing es ++ k, p⟩ "expected '\x7b'")) l := by
      rfl
    rw [firstOf_of_mismatch noBase, firstOf_of_mismatch noObject]
    refine firstOf_of_ok ?_
    exact bind_of_ok read

/-- Nothing is read off a text that closes a leaf. -/
theorem accessors_closes {fuel : Nat} (hfuel : 0 < fuel) {k : Text} (hk : Closes k) (p : Position)
    (l : List String) : accessors self fuel ⟨k, p⟩ l = .ok ([], ⟨k, p⟩) l := by
  obtain ⟨-, -, dot, bracket⟩ := hk
  obtain ⟨fuel, rfl⟩ : ∃ m, fuel = m + 1 := ⟨fuel - 1, by omega⟩
  rw [accessors.eq_def]
  dsimp only
  split
  · exact absurd rfl dot
  · exact absurd rfl bracket
  · rfl

theorem atom_leaf (silent : names.Silent) (hself : ReadsBack n self) {lf : Leaf} (ordered : lf.Ordered)
    {fuel : Nat} (term : Terminator) {k : Text} (hk : Closes k) (hn : (lf.text ++ k).length ≤ n)
    (hfuel : (lf.text ++ k).length ≤ fuel) (p : Position) (l : List String) :
    atom names self fuel term ⟨lf.text ++ k, p⟩ l =
      .ok ((Typeset.leaf lf).placed p, ⟨k, p.afterText lf.text⟩) l := by
  have some_text : 0 < (lf.text ++ k).length := by
    obtain ⟨x, xs, hx, -⟩ := lf.exists_text_eq
    rw [hx]
    exact Nat.succ_pos _
  refine (bind_of_ok (base_leaf silent hself ordered term hk hn hfuel p l)).trans ?_
  refine (bind_of_ok (accessors_closes (Nat.lt_of_lt_of_le some_text hfuel) hk _ l)).trans ?_
  rw [Typeset.placed]
  rfl

/-- A segment is read as its leaf with the prefix operators in front of it. -/
theorem operand_segment (silent : names.Silent) (hself : ReadsBack n self) {s : Segment} (apart : s.Apart)
    (ordered : s.leaf.Ordered) {fuel : Nat} (term : Terminator) {k : Text} (hk : Closes k)
    (hn : (s.text ++ k).length ≤ n) (hfuel : (s.text ++ k).length ≤ fuel) (p : Position)
    (l : List String) :
    operand names self fuel term ⟨s.text ++ k, p⟩ l =
      .ok ((s.placed p).runs, (s.placed p).value, ⟨k, p.afterText s.text⟩) l := by
  have leafLength : (s.leaf.text ++ k).length ≤ (s.text ++ k).length := by
    simp only [Segment.text, List.length_append]
    omega
  have read := atom_leaf silent hself ordered term hk (Nat.le_trans leafLength hn)
    (Nat.le_trans leafLength hfuel) (p.afterText s.lead) l
  have runs := unaryRuns_segment apart k p
  rw [Segment.text, Position.afterText_append]
  rw [Segment.text] at runs
  rw [operand, runs]
  cases hus : s.prefixes.map aloneRun with
  | nil =>
    have noLead : s.lead = [] := by
      rw [Segment.lead, List.map_eq_nil_iff.1 hus]
      rfl
    rw [noLead] at read ⊢
    refine (bind_of_ok read).trans ?_
    simp only [Segment.placed, hus, noLead]
    rfl
  | cons r rs =>
    refine (bind_of_ok (attempt_of_ok read)).trans ?_
    simp only [← hus, collapse_aloneRun, Segment.placed]
    rfl

/-- The characters that links begin with. -/
def linkStarts : List Char := [' ', '+', '-', '*', '/', '%', '^', '=', '!', '<', '>', '&', '|']

theorem exists_token_eq (op : BinaryOp) : ∃ x xs, op.token.toList = x :: xs ∧ x ∈ linkStarts := by
  cases op <;> exact ⟨_, _, rfl, by decide⟩

theorem Link.exists_text_eq (k : Link) : ∃ x xs, k.text = x :: xs ∧ x ∈ linkStarts := by
  obtain ⟨op, before, after, s⟩ := k
  cases before with
  | zero =>
    obtain ⟨x, xs, token, hx⟩ := exists_token_eq op
    exact ⟨x, xs ++ spaces after ++ s.text, by simp [text, lead, token, spaces], hx⟩
  | succ before =>
    exact ⟨' ', spaces before ++ op.token.toList ++ spaces after ++ s.text, rfl, by decide⟩

/-- What follows a segment in an expression does not continue its leaf. -/
theorem closes_links (ks : List Link) {k : Text} (hk : Closes k) : Closes (ks.flatMap Link.text ++ k) := by
  have starts : ∀ x ∈ linkStarts, (!isWordChar x && (isLayout x || Terminator.isNameStop x) &&
      x != '.' && x != '[') = true := List.all_eq_true.1 (by decide)
  cases ks with
  | nil => exact hk
  | cons link ks =>
    obtain ⟨x, xs, hlink, hx⟩ := link.exists_text_eq
    have start := starts x hx
    simp only [Bool.and_eq_true, Bool.not_eq_true', bne_iff_ne] at start
    obtain ⟨⟨⟨word, quote⟩, dot⟩, bracket⟩ := start
    rw [List.flatMap_cons, hlink, List.cons_append, List.cons_append]
    exact ⟨word, quote, fun h => dot (Option.some.inj h), fun h => bracket (Option.some.inj h)⟩

theorem operations_of_end {fuel left : Nat} {term : Terminator} {f : Fold} {c : Cursor}
    (h : ((skipGap c).atEnd || term (skipGap c).rest) = true) :
    operations names self fuel term (left + 1) f c = pure (f, c) := by
  rw [operations]
  exact if_pos h

theorem operations_of_operand {fuel left : Nat} {term : Terminator} {f : Fold} {c d d' : Cursor}
    {op : BinaryOp} {runs : List UnaryRun} {e : Expr} {l l' : List String}
    (more : ((skipGap c).atEnd || term (skipGap c).rest) = false)
    (operator : binaryOperator (skipGap c) = .ok (op, d))
    (read : operand names self fuel term (skipGap d) l = .ok (runs, e, d') l') :
    operations names self fuel term (left + 1) f c l =
      operations names self fuel term left
        ((f.pushBinary op (gap c.rest + gap d.rest)).pushOperand runs e) d' l' := by
  rw [operations]
  dsimp only [measureGap]
  rw [more, operator]
  exact bind_of_ok (attempt_of_ok read)

/-- Neither `=` nor `/` follows the operator of a link. -/
theorem head?_spaces_segment (n : Nat) (s : Segment) (t : Text) {d : Char} (hd : beginsExpr d = false)
    (hs : d ≠ ' ') : (spaces n ++ (s.text ++ t)).head? ≠ some d := by
  cases n with
  | zero =>
    obtain ⟨x, xs, hx, begins⟩ := s.exists_text_eq
    rw [hx]
    exact fun h => ne_of_beginsExpr begins hd (Option.some.inj h)
  | succ n => exact fun h => hs (Option.some.inj h).symm

/-- One link is read. -/
theorem operations_link (silent : names.Silent) (hself : ReadsBack n self) {link : Link}
    (apart : link.segment.Apart) (ordered : link.segment.leaf.Ordered) {fuel : Nat} {term : Terminator}
    (spares : term.Spares) {t : Text} (ht : Closes t) (hn : (link.text ++ t).length ≤ n)
    (hfuel : (link.text ++ t).length ≤ fuel) (left : Nat) (f : Fold) (p : Position) (l : List String) :
    operations names self fuel term (left + 1) f ⟨link.text ++ t, p⟩ l =
      operations names self fuel term left (Chain.link f (link.placed p)) ⟨t, p.afterText link.text⟩ l := by
  obtain ⟨op, before, after, s⟩ := link
  -- The text is cut where white space is measured: before the operator and before the segment.
  have cut : Link.text ⟨op, before, after, s⟩ ++ t =
      spaces before ++ (op.token.toList ++ (spaces after ++ (s.text ++ t))) := by
    simp [Link.text, Link.lead]
  have notEquals := head?_spaces_segment after s t (d := '=') (by decide) (by decide)
  have notSlash := head?_spaces_segment after s t (d := '/') (by decide) (by decide)
  have gapBefore : gap (spaces before ++ (op.token.toList ++ (spaces after ++ (s.text ++ t)))) = before := by
    rw [gap_spaces, gap_token op notSlash, Nat.add_zero]
  have gapAfter : gap (spaces after ++ (s.text ++ t)) = after := by
    obtain ⟨x, xs, hx, begins⟩ := s.exists_text_eq
    exact gap_spaces_expr after ⟨x, xs ++ t, by rw [hx, List.cons_append], begins⟩
  have shorter : (s.text ++ t).length ≤ (Link.text ⟨op, before, after, s⟩ ++ t).length := by
    rw [cut]
    simp only [List.length_append]
    omega
  have more : ((skipGap ⟨Link.text ⟨op, before, after, s⟩ ++ t, p⟩).atEnd ||
      term (skipGap ⟨Link.text ⟨op, before, after, s⟩ ++ t, p⟩).rest) = false := by
    obtain ⟨x, xs, token, -⟩ := exists_token_eq op
    rw [cut, skipGap_spaces gapBefore, spares, token]
    rfl
  have operator := binaryOperator_token op notEquals (p.afterText (spaces before))
  rw [← skipGap_spaces gapBefore, ← cut] at operator
  have read := operand_segment silent hself apart ordered term ht (Nat.le_trans shorter hn)
    (Nat.le_trans shorter hfuel) (p.afterText (Link.lead ⟨op, before, after, s⟩)) l
  rw [Link.lead, Position.afterText_append, ← skipGap_spaces gapAfter, Position.afterText_append] at read
  refine (operations_of_operand more operator read).trans ?_
  dsimp only
  rw [cut, gapBefore, gapAfter]
  simp only [Link.text, Link.lead, Link.placed, Chain.link, Position.afterText_append]

/-- The links of an expression are read one after the other, up to its end. -/
theorem operations_links (silent : names.Silent) (hself : ReadsBack n self) {ks : List Link}
    (segments : ∀ link ∈ ks, link.segment.Apart ∧ link.segment.leaf.Ordered) {fuel : Nat}
    {term : Terminator} (spares : term.Spares) {k : Text} (hk : Ends term k)
    (hn : (ks.flatMap Link.text ++ k).length ≤ n) (hfuel : (ks.flatMap Link.text ++ k).length ≤ fuel)
    {left : Nat} (hleft : (ks.flatMap Link.text ++ k).length < left) (f : Fold) (p : Position)
    (l : List String) :
    operations names self fuel term left f ⟨ks.flatMap Link.text ++ k, p⟩ l =
      .ok ((Link.placedAll ks p).foldl Chain.link f, ⟨k, p.afterText (ks.flatMap Link.text)⟩) l := by
  induction ks generalizing left f p with
  | nil =>
    obtain ⟨left, rfl⟩ : ∃ m, left = m + 1 := ⟨left - 1, by omega⟩
    have stop : ((skipGap ⟨k, p⟩).atEnd || term (skipGap ⟨k, p⟩).rest) = true := by
      rw [Cursor.atEnd, skipGap, Cursor.rest_skip, Bool.or_eq_true, List.isEmpty_iff]
      exact hk.2
    exact congrFun (operations_of_end stop) l
  | cons link ks ih =>
    obtain ⟨left, rfl⟩ : ∃ m, left = m + 1 := ⟨left - 1, by omega⟩
    obtain ⟨⟨apart, ordered⟩, later⟩ := List.forall_mem_cons.1 segments
    have shorter : (ks.flatMap Link.text ++ k).length < ((link :: ks).flatMap Link.text ++ k).length := by
      obtain ⟨x, xs, hx, -⟩ := link.exists_text_eq
      simp only [List.flatMap_cons, List.length_append, hx, List.length_cons]
      omega
    rw [List.flatMap_cons, List.append_assoc] at shorter hn hfuel hleft ⊢
    rw [operations_link silent hself apart ordered spares (closes_links ks hk.1) hn hfuel,
      ih later (by omega) (by omega) (by omega), Position.afterText_append]
    rfl

/-- An ordered expression is read back by a reader over one that does so for shorter texts. -/
theorem expressionWith_text (silent : names.Silent) (hself : ReadsBack n self) {t : Typeset}
    (ordered : t.Ordered) {term : Terminator} (spares : term.Spares) {k : Text} (hk : Ends term k)
    (hn : (t.text ++ k).length ≤ n) (p : Position) (l : List String) :
    expressionWith names self n term ⟨t.text ++ k, p⟩ l =
      .ok (t.placed p, ⟨k, p.afterText t.text⟩) l := by
  have shorter : (t.links.flatMap Link.text ++ k).length < (t.text ++ k).length := by
    obtain ⟨x, xs, hx, -⟩ := t.first.exists_text_eq
    rw [t.text_eq, hx]
    simp only [List.length_append, List.length_cons]
    omega
  have whole : (t.first.text ++ (t.links.flatMap Link.text ++ k)).length ≤ n := by
    rw [← List.append_assoc, ← t.text_eq]
    exact hn
  have first := operand_segment silent hself (Typeset.apart_first ordered) (Typeset.ordered_first ordered)
    term (closes_links t.links hk.1) whole whole p l
  have fits : (t.links.flatMap Link.text ++ k).length < n := Nat.lt_of_lt_of_le shorter hn
  have more := operations_links silent hself (Typeset.links_ordered ordered) spares hk (Nat.le_of_lt fits)
    (Nat.le_of_lt fits) fits (Fold.pushOperand {} (t.first.placed p).runs (t.first.placed p).value)
    (p.afterText t.first.text) l
  have folded : (Link.placedAll t.links (p.afterText t.first.text)).foldl Chain.link
      (Fold.pushOperand {} (t.first.placed p).runs (t.first.placed p).value) = (t.chain p).fold := rfl
  rw [← List.append_assoc, ← t.text_eq] at first
  refine (bind_of_ok first).trans ((bind_of_ok more).trans ?_)
  rw [folded, ← Position.afterText_append, ← t.text_eq]
  change EStateM.Result.ok ((t.chain p).fold.finish.headD _, _) l = _
  rw [Typeset.finish_chain ordered]
  rfl

end Productions

/-! ## Expressions -/

theorem readsBack_expressionAt {names : Names} (silent : names.Silent) (n : Nat) :
    ReadsBack n (expressionAt names n) := by
  induction n with
  | zero => intro t _ term _ k _ hn; omega
  | succ n ih =>
    intro t ordered term spares k hk hn p l
    exact expressionWith_text silent ih ordered spares hk (Nat.le_of_lt_succ hn) p l

/-- An ordered expression that spans all of a text is read back. -/
theorem fullExpression_text {names : Names} (silent : names.Silent) {t : Typeset} (ordered : t.Ordered)
    (p : Position) (l : List String) : fullExpression names ⟨t.text, p⟩ l = .ok (t.placed p) l := by
  have spares : Terminator.never.Spares := fun _ _ => rfl
  have ends : Ends Terminator.never [] := ⟨⟨rfl, rfl, nofun, nofun⟩, .inl rfl⟩
  have start := skipGap_typeset t [] p
  have read := readsBack_expressionAt silent (t.text.length + 1) t ordered Terminator.never spares [] ends
    (by simp) p l
  rw [List.append_nil] at start read
  rw [fullExpression, start]
  exact (bind_of_ok read).trans rfl

/-- No name is bound in the state. -/
def State.Unbound (s : State) : Prop := ∀ f ∈ s.frames, f.vars = [] ∧ f.funcs = []

theorem State.silent_names {s : State} (h : s.Unbound) : s.names.Silent := by
  have noVariable {f : Frame} (hf : f ∈ s.frames) (name : String) : s.liveIn f name = none := by
    rw [liveIn, Frame.binding?, (h f hf).1]
    rfl
  have noFunction {f : Frame} (hf : f ∈ s.frames) (name : String) : f.function? name = none := by
    rw [Frame.function?, (h f hf).2]
    rfl
  constructor
  · intro name
    have none_live : s.lookupVariable name = none :=
      List.findSome?_eq_none_iff.2 fun f hf => noVariable hf name
    simp [names, none_live]
  · intro strict name
    have none_callable (fs : List Frame) (hfs : ∀ f ∈ fs, f ∈ s.frames) : s.callableIn strict name fs = none := by
      induction fs with
      | nil => rfl
      | cons f fs ih =>
        obtain ⟨hf, hfs⟩ := List.forall_mem_cons.1 hfs
        rw [callableIn, noVariable hf, noFunction hf]
        exact ih hfs
    exact none_callable s.frames fun _ hf => hf

/-- White space can express every tree: in a state with no bindings, an expression in which every
operator is wider than the operators inside its operands reads as its tree, wherever it stands; and
every tree is that of such an expression. -/
theorem spaces_express_every_tree (s : State) (unbound : s.Unbound) :
    (∀ t : Typeset, t.Ordered → ∀ p : Position, ∃ e,
      Reading.outcome (fullExpression s.names ⟨t.text, p⟩) = .ok e ∧ e.unplaced = t.tree) ∧
    ∀ t : Typeset, ∃ u : Typeset, u.Ordered ∧ u.tree = t.tree := by
  refine ⟨fun t ordered p => ⟨t.placed p, ?_, t.unplaced_placed p⟩, fun t => ?_⟩
  · rw [outcome, fullExpression_text (State.silent_names unbound) ordered p []]
  · exact ⟨t.spread, t.ordered_spread, t.tree_spread⟩

/-- A sum in front of a product, held together by the space around the product. -/
def spacedProduct : Typeset :=
  .binary .mul 1 1
    (.unary .negate 1 (.binary .add 0 0 (.leaf (.literal (.bigint 1))) (.leaf (.literal (.bigint 2)))))
    (.leaf (.array [.unary .not 0 (.leaf (.literal (.boolean true))), .leaf (.literal (.string "a"))]))

theorem spaces_express_every_tree_product :
    spacedProduct.text = "- 1n+2n * [;true,\"a\"]".toList ∧
    (∀ f ∈ ({} : State).frames, f.vars = [] ∧ f.funcs = []) ∧ spacedProduct.Ordered ∧
    ∃ e, Reading.outcome (fullExpression ({} : State).names ⟨spacedProduct.text, {}⟩) = .ok e ∧
      e.unplaced = spacedProduct.tree := by
  have text : spacedProduct.text = "- 1n+2n * [;true,\"a\"]".toList := by
    simp [spacedProduct, Typeset.text, Leaf.text, Literal.text, Typeset.closing]
    decide
  have unbound : ({} : State).Unbound := by simp [State.Unbound]
  have ordered : spacedProduct.Ordered := by
    simp [spacedProduct, Typeset.Ordered, Typeset.widths, Leaf.Ordered, Typeset.AllOrdered]
  exact ⟨text, unbound, ordered, (spaces_express_every_tree {} unbound).1 spacedProduct ordered {}⟩

end Gapscript
