import Gapscript.Proofs.Expr.RoundTrip

/-!
# Calls in prefix notation

A call is written as the name of a function and its arguments, without brackets. Which call a comma
belongs to is decided by the numbers of arguments alone: where only functions are bound, and their names
are words, the text of a tree of calls reads as that tree (`arities_decode_calls`). Every argument but the
last is read up to a comma, and the last one up to where the call itself has to end.
-/

namespace Gapscript

open Lexical Reading

/-! ## Trees of calls -/

/-- A literal, or a call of a function with arguments. -/
inductive CallTree where
  | leaf (l : Literal)
  | call (fn : FunctionRef) (args : List CallTree)

namespace CallTree

mutual

/-- The text of a tree: a literal, or the name of a function with its arguments. -/
def text : CallTree → Text
  | .leaf l => l.text
  | .call fn args => fn.code.name.toList ++ textAll args

/-- The text of arguments: a space in front of each, and commas between them. -/
def textAll : List CallTree → Text
  | [] => []
  | t :: ts =>
    ' ' :: t.text ++
      match ts with
      | [] => []
      | _ :: _ => ',' :: textAll ts

end

mutual

/-- The expression tree, with no places in it. -/
def tree : CallTree → Expr
  | .leaf l => .atom (.literal l.value false) [] {}
  | .call fn args => .atom (.call fn.code.name fn (treeAll args) {}) [] {}

/-- The expression trees of some arguments. -/
def treeAll : List CallTree → List Expr
  | [] => []
  | t :: ts => t.tree :: treeAll ts

end

mutual

/-- The expression tree of a text that starts at a place. -/
def placed : CallTree → Position → Expr
  | .leaf l, p => .atom (.literal l.value false) [] p
  | .call fn args, p =>
    .atom (.call fn.code.name fn (placedAll args (p.afterText fn.code.name.toList)) p) [] p

/-- The expression trees of arguments whose text starts at a place. -/
def placedAll : List CallTree → Position → List Expr
  | [], _ => []
  | t :: ts, p => t.placed (p.after ' ') :: placedAll ts ((p.afterText (' ' :: t.text)).after ',')

end

mutual

theorem unplaced_placed (t : CallTree) (p : Position) : (t.placed p).unplaced = t.tree := by
  cases t with
  | leaf l => rw [placed, Expr.unplaced, Base.unplaced, tree, Accessor.unplacedAll]
  | call fn args =>
    rw [placed, Expr.unplaced, Base.unplaced, unplacedAll_placedAll args, tree, Accessor.unplacedAll]

theorem unplacedAll_placedAll (ts : List CallTree) (p : Position) :
    Expr.unplacedAll (placedAll ts p) = treeAll ts := by
  cases ts with
  | nil => rfl
  | cons t ts => rw [placedAll, Expr.unplacedAll, unplaced_placed t, unplacedAll_placedAll ts, treeAll]

end

mutual

/-- Every call in the tree is of what its name stands for and has as many arguments as that takes, and no
literal in it can be called. -/
def Agrees (names : Names) : CallTree → Prop
  | .leaf l => names.callee? true (String.ofList l.text) = none
  | .call fn args =>
    names.callee? true fn.code.name = some fn ∧ args.length = fn.code.arity ∧ AllAgree names args

/-- The calls in the trees agree with what their names stand for. -/
def AllAgree (names : Names) : List CallTree → Prop
  | [] => True
  | t :: ts => t.Agrees names ∧ AllAgree names ts

end

end CallTree

/-! ## Words -/

/-- The text is a word: it has a character, and all of them are characters of words. -/
def Text.IsWord (w : Text) : Prop := w ≠ [] ∧ ∀ x ∈ w, isWordChar x = true

instance (w : Text) : Decidable w.IsWord := inferInstanceAs (Decidable (_ ∧ _))

/-- A character that a tree of calls begins with. -/
def beginsCall (x : Char) : Bool := isWordChar x || x == '"'

/-- The characters that end words, and those that begin something else. -/
theorem ne_of_beginsCall {x y : Char} (hx : beginsCall x = true) (hy : beginsCall y = false) : x ≠ y := by
  rintro rfl
  rw [hx] at hy
  cases hy

theorem beginsCall_of_isWordChar {x : Char} (h : isWordChar x = true) : beginsCall x = true := by
  simp [beginsCall, h]

theorem isLayout_of_beginsCall {x : Char} (hx : beginsCall x = true) : isLayout x = false := by
  have ne {y : Char} (hy : beginsCall y = false) : x ≠ y := ne_of_beginsCall hx hy
  simp [isLayout, ne (y := ' ') (by decide), ne (y := '\t') (by decide), ne (y := '\r') (by decide),
    ne (y := '\n') (by decide), ne (y := '(') (by decide), ne (y := ')') (by decide)]

theorem isNameStop_of_beginsCall {x : Char} (hx : beginsCall x = true) : Terminator.isNameStop x = false := by
  refine Bool.eq_false_iff.2 fun stop => ?_
  have other : ∀ y ∈ Terminator.nameStops, beginsCall y = false := by decide
  have among : x ∈ Terminator.nameStops := by simpa [Terminator.isNameStop] using stop
  rw [other x among] at hx
  cases hx

theorem gap_of_beginsCall {x : Char} (hx : beginsCall x = true) (t : Text) : gap (x :: t) = 0 := by
  have slash : x ≠ '/' := ne_of_beginsCall hx (by decide)
  simp [gap, gapFrom, isLayout_of_beginsCall hx, slash]

/-- A word is read up to what cannot continue a name. -/
theorem wordLength_word {w k : Text} (word : ∀ x ∈ w, beginsCall x = true) (ends : endsQuote k = true)
    (first : Bool) (some_ : first = true → w ≠ []) : wordLength Terminator.name first (w ++ k) = w.length := by
  induction w generalizing first with
  | nil =>
    have later : first = false := by
      cases first with
      | false => rfl
      | true => exact absurd rfl (some_ rfl)
    subst later
    cases k with
    | nil => rfl
    | cons y k =>
      have stops : isLayout y = true ∨ Terminator.isNameStop y = true := by simpa [endsQuote] using ends
      rcases stops with layout | stop
      · simp [wordLength, layout]
      · simp [wordLength, Terminator.name, stop]
  | cons x w ih =>
    obtain ⟨hx, hw⟩ := List.forall_mem_cons.1 word
    have goes : Terminator.name (x :: (w ++ k)) = false := isNameStop_of_beginsCall hx
    have later := ih hw false fun same => absurd same Bool.false_ne_true
    rw [List.cons_append, wordLength, isLayout_of_beginsCall hx, goes, later]
    simp

/-- A text of such characters is read as a name. -/
theorem bindingName_word {w k : Text} (some_ : w ≠ []) (word : ∀ x ∈ w, beginsCall x = true)
    (ends : endsQuote k = true) (p : Position) :
    bindingName ⟨w ++ k, p⟩ = .ok (String.ofList w, ⟨k, p.afterText w⟩) := by
  have length := wordLength_word word ends true fun _ => some_
  have passed := skip_append w k p
  have read : identifier Terminator.name ⟨w ++ k, p⟩ = .ok (String.ofList w, ⟨k, p.afterText w⟩) := by
    rw [identifier]
    dsimp only
    rw [length]
    split
    · next none_ => exact absurd (List.length_eq_zero_iff.1 none_) some_
    · rw [passed, List.take_left]
  obtain ⟨x, u, rfl⟩ := List.exists_cons_of_ne_nil some_
  have hx : beginsCall x = true := word x List.mem_cons_self
  have allowed : ¬(Terminator.isNameStop x || x == '(' || x == ')') = true := by
    simp [isNameStop_of_beginsCall hx, ne_of_beginsCall hx (y := '(') (by decide),
      ne_of_beginsCall hx (y := ')') (by decide)]
  rw [bindingName]
  exact (if_neg allowed).trans read

/-- A name keeps the character that it is read at. -/
theorem head_of_bindingName {x : Char} {t : Text} {p : Position} {r : String × Cursor}
    (h : bindingName ⟨x :: t, p⟩ = .ok r) : r.1.toList.head? = some x := by
  rw [bindingName] at h
  dsimp only at h
  split at h
  · cases h
  · rw [identifier] at h
    cases length : wordLength Terminator.name true (x :: t) with
    | zero =>
      simp only [length] at h
      cases h
    | succ n =>
      simp only [length] at h
      cases h
      simp

/-! ## Leaves -/

/-- A literal begins like a tree of calls. -/
theorem Literal.exists_text_beginsCall (l : Literal) : ∃ x xs, l.text = x :: xs ∧ beginsCall x = true := by
  obtain ⟨x, xs, text, begins⟩ := l.exists_text_eq
  refine ⟨x, xs, text, ?_⟩
  cases l with
  | bigint n =>
    have first : x ∈ Nat.toDigits 10 n ++ ['n'] := by
      rw [← Literal.text, text]
      exact List.mem_cons_self
    rcases List.mem_append.1 first with digit | letter
    · exact beginsCall_of_isWordChar (by simp [isWordChar, isDigit_of_mem_toDigits digit])
    · rw [List.mem_singleton.1 letter]
      decide
  | boolean b => cases b <;> cases text <;> decide
  | null | undefined => cases text; decide
  | string s => cases text; decide

/-- A literal is a word, or it begins with a quote. -/
theorem Literal.isWord_or_quote (l : Literal) : l.text.IsWord ∨ l.text.head? = some '"' := by
  cases l with
  | bigint n =>
    refine .inl ⟨by simp [Literal.text], fun x hx => ?_⟩
    rcases List.mem_append.1 hx with digit | letter
    · simp [isWordChar, isDigit_of_mem_toDigits digit]
    · rw [List.mem_singleton.1 letter]
      decide
  | boolean b => cases b <;> exact .inl (by decide)
  | null | undefined => exact .inl (by decide)
  | string s => exact .inr rfl

/-! ## Names of functions -/

/-- Names stand for functions only, and those are words. -/
def Names.Functional (names : Names) : Prop :=
  (∀ name, names.value? name = none) ∧
    ∀ strict name fn, names.callee? strict name = some fn → Text.IsWord name.toList

/-- What begins with a quote is not the name of a function. -/
theorem callee?_of_quote {names : Names} (functional : names.Functional) {strict : Bool} {name : String}
    (quote : name.toList.head? = some '"') : names.callee? strict name = none := by
  cases found : names.callee? strict name with
  | none => rfl
  | some fn =>
    obtain ⟨-, word⟩ := functional.2 strict name fn found
    have first := word '"' (List.mem_of_mem_head? quote)
    exact absurd first (by decide)

namespace CallTree

variable {names : Names} {self : ExprReader} {n : Nat}

/-- The name at the start of a literal does not stand for a function. -/
theorem callee?_of_leaf (functional : names.Functional) {l : Literal} (agrees : (leaf l).Agrees names)
    {k : Text} (ends : endsQuote k = true) {p : Position} {r : String × Cursor}
    (read : bindingName ⟨l.text ++ k, p⟩ = .ok r) : names.callee? true r.1 = none := by
  rcases l.isWord_or_quote with ⟨some_, word⟩ | quote
  · rw [bindingName_word some_ (fun x hx => beginsCall_of_isWordChar (word x hx)) ends] at read
    cases read
    exact agrees
  · obtain ⟨xs, text⟩ := List.head?_eq_some_iff.1 quote
    rw [text, List.cons_append] at read
    exact callee?_of_quote functional (head_of_bindingName read)

/-- A tree begins with a literal or a name. -/
theorem exists_text_eq (functional : names.Functional) {t : CallTree} (agrees : t.Agrees names) :
    ∃ x xs, t.text = x :: xs ∧ beginsCall x = true := by
  cases t with
  | leaf l =>
    rw [text]
    exact l.exists_text_beginsCall
  | call fn args =>
    obtain ⟨some_, word⟩ := functional.2 true _ fn agrees.1
    obtain ⟨x, xs, name⟩ := List.exists_cons_of_ne_nil some_
    refine ⟨x, xs ++ textAll args, by rw [text, name, List.cons_append], ?_⟩
    exact beginsCall_of_isWordChar (word x (by rw [name]; exact List.mem_cons_self))

/-- The text of arguments does not continue the name in front of it. -/
theorem closes_textAll (ts : List CallTree) {k : Text} (hk : Closes k) : Closes (textAll ts ++ k) := by
  cases ts with
  | nil => exact hk
  | cons t ts => exact ⟨rfl, rfl, nofun, nofun⟩

/-! ## Reading -/

/-- A terminator that no tree of calls begins with. -/
def Spared (term : Terminator) : Prop := ∀ x t, beginsCall x = true → term (x :: t) = false

theorem spared_or_comma {term : Terminator} (spared : Spared term) :
    Spared (term.or (Terminator.tokens [","])) := by
  intro x t hx
  have comma : ',' ≠ x := (ne_of_beginsCall hx (by decide)).symm
  simp [Terminator.or, spared x t hx, Terminator.tokens, List.isPrefixOf, comma]

theorem ends_or_comma (term : Terminator) (t : Text) :
    Ends (term.or (Terminator.tokens [","])) (',' :: t) := by
  refine ⟨⟨rfl, rfl, nofun, nofun⟩, .inr ?_⟩
  change (term (',' :: t) || true) = true
  rw [Bool.or_true]

/-- The reader reads every tree of calls of fewer than `n` characters. -/
def ReadsCalls (names : Names) (n : Nat) (self : ExprReader) : Prop :=
  ∀ t : CallTree, t.Agrees names → ∀ term, Spared term → ∀ k, Ends term k → (t.text ++ k).length < n →
    ∀ p l, self term ⟨t.text ++ k, p⟩ l = .ok (t.placed p, ⟨k, p.afterText t.text⟩) l

/-- The white space in front of an argument is one space. -/
theorem skipGap_space {x : Char} (hx : beginsCall x = true) (t : Text) (p : Position) :
    skipGap ⟨' ' :: x :: t, p⟩ = ⟨x :: t, p.after ' '⟩ := by
  have one : gap (' ' :: x :: t) = 1 := by rw [gap_of_layout rfl, gap_of_beginsCall hx]
  rw [skipGap, one]
  rfl

/-- The last argument of a call is read up to where the call ends. -/
theorem arguments_last {tooFew : Nat → Error} {term : Terminator} {read : Nat} {c d : Cursor} {e : Expr}
    {l l' : List String}
    (more : ((skipGap c).atEnd || Terminator.statement (skipGap c).rest || term (skipGap c).rest) = false)
    (value : self term (skipGap c) l = .ok (e, d) l') :
    arguments self tooFew term read 1 c l = .ok ([e], d) l' := by
  rw [arguments]
  dsimp only
  rw [more]
  exact bind_of_ok (attempt_of_ok value)

/-- An argument that others follow is read up to a comma. -/
theorem arguments_comma {tooFew : Nat → Error} {term : Terminator} {read left : Nat} {c d d' : Cursor}
    {e : Expr} {r : List Expr × Cursor} {l l' l'' : List String}
    (more : ((skipGap c).atEnd || Terminator.statement (skipGap c).rest || term (skipGap c).rest) = false)
    (value : self (term.or (Terminator.tokens [","])) (skipGap c) l = .ok (e, d) l')
    (comma : (skipGap d).consume? "," = some d')
    (rest : arguments self tooFew term (read + 1) (left + 1) d' l' = .ok r l'') :
    arguments self tooFew term read (left + 2) c l = .ok (e :: r.1, r.2) l'' := by
  rw [arguments]
  dsimp only
  rw [more]
  refine (bind_of_ok (attempt_of_ok value)).trans ?_
  dsimp only
  rw [if_neg (Nat.succ_ne_zero left), comma]
  exact bind_of_ok rest

/-- Behind the white space in front of an argument, the call does not end. -/
theorem begins_argument (functional : names.Functional) {term : Terminator} (spared : Spared term)
    {t : CallTree} (agrees : t.Agrees names) (u : Text) (p : Position) :
    let c := skipGap ⟨' ' :: (t.text ++ u), p⟩
    c = ⟨t.text ++ u, p.after ' '⟩ ∧ (c.atEnd || Terminator.statement c.rest || term c.rest) = false := by
  obtain ⟨x, xs, text, hx⟩ := exists_text_eq functional agrees
  have mark : x ≠ '!' := ne_of_beginsCall hx (by decide)
  have query : x ≠ '?' := ne_of_beginsCall hx (by decide)
  have start := skipGap_space hx (xs ++ u) p
  rw [text, List.cons_append, start]
  refine ⟨rfl, ?_⟩
  simp [Cursor.atEnd, spared x _ hx, Terminator.statement, mark, query]

/-- The arguments of a call are read one after the other: all but the last end at a comma, and the last
where the call does. -/
theorem arguments_textAll (functional : names.Functional) (hself : ReadsCalls names n self)
    (tooFew : Nat → Error) {term : Terminator} (spared : Spared term) {ts : List CallTree}
    (agree : AllAgree names ts) {k : Text} (hk : Ends term k) (hn : (textAll ts ++ k).length ≤ n)
    (read : Nat) (p : Position) (l : List String) :
    arguments self tooFew term read ts.length ⟨textAll ts ++ k, p⟩ l =
      .ok (placedAll ts p, ⟨k, p.afterText (textAll ts)⟩) l := by
  induction ts generalizing read p with
  | nil => rfl
  | cons t ts ih =>
    obtain ⟨agrees, later⟩ := agree
    cases ts with
    | nil =>
      rw [textAll, List.append_nil, List.cons_append] at hn ⊢
      obtain ⟨start, more⟩ := begins_argument functional spared agrees k p
      have value := hself t agrees term spared k hk (Nat.lt_of_succ_le hn) (p.after ' ') l
      rw [← start] at value
      exact arguments_last more value
    | cons t' ts =>
      rw [textAll, List.append_assoc, List.cons_append, List.cons_append] at hn ⊢
      obtain ⟨start, more⟩ :=
        begins_argument functional spared agrees (',' :: (textAll (t' :: ts) ++ k)) p
      have shorter : (textAll (t' :: ts) ++ k).length ≤ n := by
        simp only [List.length_append, List.length_cons] at hn ⊢
        omega
      have value := hself t agrees _ (spared_or_comma spared) _ (ends_or_comma term _)
        (Nat.lt_of_succ_le hn) (p.after ' ') l
      have rest := ih later shorter (read + 1) (((p.after ' ').afterText t.text).after ',')
      rw [← start] at value
      rw [Position.afterText_append]
      exact arguments_comma more value rfl rest

/-- A tree of calls is read as what it stands for: its call, or its literal. -/
theorem base_text (functional : names.Functional) (hself : ReadsCalls names n self) {t : CallTree}
    (agrees : t.Agrees names) (fuel : Nat) {term : Terminator} (spared : Spared term) {k : Text}
    (hk : Ends term k) (hn : (t.text ++ k).length ≤ n) (p : Position) (l : List String) :
    ∃ b, base names self fuel term ⟨t.text ++ k, p⟩ l = .ok (b, ⟨k, p.afterText t.text⟩) l ∧
      t.placed p = .atom b [] p := by
  cases t with
  | leaf lit =>
    refine ⟨.literal lit.value false, ?_, by rw [placed]⟩
    rw [text]
    obtain ⟨e, noCall⟩ := call_of_uncallable self
      (fun r read => callee?_of_leaf functional agrees hk.1.2.1 read) term l
    obtain ⟨e', noVariable⟩ := variableName_of_silent functional.1 ⟨lit.text ++ k, p⟩ l
    rw [base, firstOf_of_mismatch noCall, firstOf_of_mismatch noVariable]
    refine firstOf_of_ok ?_
    rw [literalBase, literal_text lit hk.1]
    rfl
  | call fn args =>
    obtain ⟨callee, arity, agree⟩ := agrees
    refine ⟨_, ?_, by rw [placed]⟩
    obtain ⟨some_, word⟩ := functional.2 true _ fn callee
    rw [text, List.append_assoc] at hn ⊢
    have shorter : (textAll args ++ k).length ≤ n := by
      simp only [List.length_append] at hn ⊢
      omega
    have name := bindingName_word some_ (fun x hx => beginsCall_of_isWordChar (word x hx))
      (closes_textAll args hk.1).2.1 p
    have called (tooFew : Nat → Error) := arguments_textAll functional hself tooFew spared agree hk shorter 0
      (p.afterText fn.code.name.toList) l
    rw [String.ofList_toList] at name
    rw [arity] at called
    refine firstOf_of_ok ?_
    rw [Gapscript.call, name]
    refine (bind_of_ok rfl).trans ?_
    dsimp only
    rw [callee]
    refine (bind_of_ok (called _)).trans ?_
    rw [Position.afterText_append]
    rfl

/-- A tree of calls is read as an operand without prefix operators. -/
theorem operand_text (functional : names.Functional) (hself : ReadsCalls names n self) {t : CallTree}
    (agrees : t.Agrees names) {fuel : Nat} (some_fuel : 0 < fuel) {term : Terminator} (spared : Spared term)
    {k : Text} (hk : Ends term k) (hn : (t.text ++ k).length ≤ n) (p : Position) (l : List String) :
    operand names self fuel term ⟨t.text ++ k, p⟩ l = .ok ([], t.placed p, ⟨k, p.afterText t.text⟩) l := by
  obtain ⟨b, read, placed⟩ := base_text functional hself agrees fuel spared hk hn p l
  have value : atom names self fuel term ⟨t.text ++ k, p⟩ l =
      .ok (t.placed p, ⟨k, p.afterText t.text⟩) l := by
    refine (bind_of_ok read).trans ((bind_of_ok (accessors_closes some_fuel hk.1 _ l)).trans ?_)
    rw [placed]
    rfl
  have plain : unaryRuns ⟨t.text ++ k, p⟩ = ([], ⟨t.text ++ k, p⟩) := by
    obtain ⟨x, xs, text, hx⟩ := exists_text_eq functional agrees
    have minus : x ≠ '-' := ne_of_beginsCall hx (by decide)
    have semicolon : x ≠ ';' := ne_of_beginsCall hx (by decide)
    rw [text]
    simp [unaryRuns, runsFrom, unaryOfChar?, minus, semicolon]
  rw [operand, plain]
  exact bind_of_ok value

/-- A tree of calls is read by a reader over one that reads shorter ones. -/
theorem expressionWith_text (functional : names.Functional) (hself : ReadsCalls names n self) {t : CallTree}
    (agrees : t.Agrees names) {term : Terminator} (spared : Spared term) {k : Text} (hk : Ends term k)
    (hn : (t.text ++ k).length ≤ n) (p : Position) (l : List String) :
    expressionWith names self n term ⟨t.text ++ k, p⟩ l =
      .ok (t.placed p, ⟨k, p.afterText t.text⟩) l := by
  obtain ⟨m, rfl⟩ : ∃ m, n = m + 1 := by
    obtain ⟨x, xs, text, -⟩ := exists_text_eq functional agrees
    rw [text] at hn
    exact ⟨n - 1, by simp only [List.cons_append, List.length_cons] at hn; omega⟩
  have first := operand_text functional hself agrees (Nat.succ_pos m) spared hk hn p l
  have stop : ((skipGap ⟨k, p.afterText t.text⟩).atEnd || term (skipGap ⟨k, p.afterText t.text⟩).rest) = true := by
    rw [Cursor.atEnd, skipGap, Cursor.rest_skip, Bool.or_eq_true, List.isEmpty_iff]
    exact hk.2
  refine (bind_of_ok first).trans ?_
  dsimp only
  rw [operations_of_end stop]
  rfl

theorem readsCalls_expressionAt (functional : names.Functional) (n : Nat) :
    ReadsCalls names n (expressionAt names n) := by
  induction n with
  | zero => intro t _ term _ k _ hn; omega
  | succ n ih =>
    intro t agrees term spared k hk hn p l
    exact expressionWith_text functional ih agrees spared hk (Nat.le_of_lt_succ hn) p l

end CallTree

/-! ## States with functions only -/

/-- No variable is bound in the state, and the functions that are have words for names. -/
def State.Functional (s : State) : Prop :=
  ∀ f ∈ s.frames, f.vars = [] ∧ ∀ fn ∈ f.funcs, Text.IsWord fn.code.name.toList

theorem State.functional_names {s : State} (h : s.Functional) : s.names.Functional := by
  have dead {f : Frame} (hf : f ∈ s.frames) (name : String) : s.liveIn f name = none := by
    rw [liveIn, Frame.binding?, (h f hf).1]
    rfl
  constructor
  · intro name
    have noVariable : s.lookupVariable name = none :=
      List.findSome?_eq_none_iff.2 fun f hf => dead hf name
    simp [names, noVariable]
  · intro strict name fn found
    have word (fs : List Frame) (hfs : ∀ f ∈ fs, f ∈ s.frames)
        (found : s.callableIn strict name fs = some fn) : Text.IsWord name.toList := by
      induction fs with
      | nil => cases found
      | cons f fs ih =>
        obtain ⟨hf, hfs⟩ := List.forall_mem_cons.1 hfs
        rw [callableIn, dead hf] at found
        dsimp only at found
        cases here : f.function? name with
        | none =>
          rw [here] at found
          exact ih hfs found
        | some g =>
          have named : g.code.name = name := by simpa using List.find?_some here
          rw [← named]
          exact (h f hf).2 g (List.mem_of_find?_eq_some here)
    exact word s.frames (fun _ hf => hf) found

/-- Numbers of arguments decode prefix notation: in a state with nothing but functions that have words for
names, the text of every tree of calls is read to its end, wherever it stands, as that tree. -/
theorem arities_decode_calls (s : State) (functional : s.Functional) (t : CallTree)
    (agrees : t.Agrees s.names) (p : Position) :
    Reading.outcome (expression s.names Terminator.never ⟨t.text, p⟩) =
        .ok (t.placed p, ⟨[], p.afterText t.text⟩) ∧
      (t.placed p).unplaced = t.tree := by
  have ends : Ends Terminator.never [] := ⟨⟨rfl, rfl, nofun, nofun⟩, .inl rfl⟩
  have read := CallTree.readsCalls_expressionAt (State.functional_names functional) (t.text.length + 1) t
    agrees Terminator.never (fun _ _ _ => rfl) [] ends (by simp) p []
  rw [List.append_nil] at read
  refine ⟨?_, t.unplaced_placed p⟩
  rw [outcome, expression, read]

/-- A function of the host that is known by a name and takes some arguments. -/
def hostFunction (id : Nat) (name : String) (arity : Nat) : FunctionRef :=
  ⟨id, { name := name, body := .native id arity }⟩

/-- A state with functions of two arguments, of one and of none. -/
def calculator : State :=
  { frames := [{ funcs := [hostFunction 0 "add" 2, hostFunction 1 "neg" 1, hostFunction 2 "zero" 0] }] }

/-- Calls inside each other, with one of no arguments in front of a comma. -/
def nestedCalls : CallTree :=
  .call (hostFunction 0 "add" 2)
    [.call (hostFunction 0 "add" 2)
      [.call (hostFunction 2 "zero" 0) [], .call (hostFunction 1 "neg" 1) [.leaf (.bigint 1)]],
      .leaf (.string "a, b")]

theorem arities_decode_calls_nested :
    nestedCalls.text = "add add zero, neg 1n, \"a, b\"".toList ∧
    (∀ f ∈ calculator.frames, f.vars = [] ∧ ∀ fn ∈ f.funcs, Text.IsWord fn.code.name.toList) ∧
    nestedCalls.Agrees calculator.names ∧
    Reading.outcome (expression calculator.names Terminator.never ⟨nestedCalls.text, {}⟩) =
      .ok (nestedCalls.placed {}, ⟨[], ({} : Position).afterText nestedCalls.text⟩) := by
  have text : nestedCalls.text = "add add zero, neg 1n, \"a, b\"".toList := by
    simp [nestedCalls, CallTree.text, CallTree.textAll, Literal.text, hostFunction]
    decide
  have functional : calculator.Functional := by
    simp [State.Functional, calculator, hostFunction]
    decide
  have agrees : nestedCalls.Agrees calculator.names := by
    simp [nestedCalls, CallTree.Agrees, CallTree.AllAgree]
    decide
  exact ⟨text, functional, agrees, (arities_decode_calls calculator functional nestedCalls agrees {}).1⟩

end Gapscript
