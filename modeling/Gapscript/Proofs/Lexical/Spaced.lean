import Gapscript.Proofs.Lexical.Edge
import Gapscript.Proofs.Reading.Tally

/-!
# Parentheses as spaces

A parenthesis takes as much room as a space and is white space like one, so in the text with every parenthesis
replaced by a space (`Text.spaced`) everything stands where it stood. Scans that look for punctuation, words and
the ends of gaps find the same in both texts. Where a piece of the text is kept as it is written, as the body of
a function or as a text nobody quoted, it is another piece; but there is such a piece in both texts or in neither,
as long as it begins behind white space.
-/

namespace Gapscript

open Lexical

/-! ## Texts and cursors -/

/-- The character, with a space for a parenthesis. -/
def spaceOf (x : Char) : Char := if x = '(' ∨ x = ')' then ' ' else x

/-- The text with every parenthesis replaced by a space. -/
def Text.spaced (t : Text) : Text := t.map spaceOf

/-- The cursor over the text with spaces for parentheses. -/
def Cursor.spaced (c : Cursor) : Cursor := ⟨c.rest.spaced, c.pos⟩

section Characters

variable {x : Char} {t : Text} {p : Position}

theorem spaceOf_cases (x : Char) : spaceOf x = x ∨ (x = '(' ∨ x = ')') ∧ spaceOf x = ' ' := by
  unfold spaceOf
  split
  · next paren => exact .inr ⟨paren, rfl⟩
  · exact .inl rfl

/-- What is the same of parentheses and spaces is the same of the character that is put in. -/
theorem of_spaceOf {α : Type} {f : Char → α} (opening : f '(' = f ' ') (closing : f ')' = f ' ') (x : Char) :
    f (spaceOf x) = f x := by
  rcases spaceOf_cases x with same | ⟨rfl | rfl, space⟩
  · rw [same]
  · rw [space, opening]
  · rw [space, closing]

@[simp] theorem isLayout_spaceOf (x : Char) : isLayout (spaceOf x) = isLayout x := of_spaceOf rfl rfl x

@[simp] theorem after_spaceOf (p : Position) (x : Char) : p.after (spaceOf x) = p.after x :=
  of_spaceOf (f := p.after) rfl rfl x

/-- Any other character is found where it was. -/
theorem spaceOf_eq_iff {y : Char} (other : isLayout y = false) (x : Char) : spaceOf x = y ↔ x = y := by
  rcases spaceOf_cases x with same | ⟨paren, space⟩
  · rw [same]
  · rw [space]
    refine iff_of_false ?_ ?_
    · rintro rfl
      cases other
    · rintro rfl
      rcases paren with rfl | rfl <;> cases other

theorem spaceOf_of_solid (solid : isLayout x = false) : spaceOf x = x := (spaceOf_eq_iff solid x).2 rfl

end Characters

namespace Text

@[simp] theorem spaced_cons (x : Char) (t : Text) : spaced (x :: t) = spaceOf x :: t.spaced := rfl

@[simp] theorem length_spaced (t : Text) : t.spaced.length = t.length := List.length_map _

theorem drop_spaced (n : Nat) (t : Text) : t.spaced.drop n = spaced (t.drop n) := List.map_drop.symm

theorem take_spaced (n : Nat) (t : Text) : t.spaced.take n = spaced (t.take n) := List.map_take.symm

/-- A text without white space is kept. -/
theorem spaced_of_solid {t : Text} (solid : ∀ x ∈ t, isLayout x = false) : t.spaced = t :=
  (List.map_congr_left fun x hx => spaceOf_of_solid (solid x hx)).trans (List.map_id t)

theorem afterText_spaced (p : Position) (t : Text) : p.afterText t.spaced = p.afterText t := by
  induction t generalizing p with
  | nil => rfl
  | cons x t ih => rw [spaced_cons, Position.afterText_cons, after_spaceOf, ih, Position.afterText_cons]

/-- A token without white space begins the one text exactly if it begins the other one. -/
theorem isPrefixOf_spaced {s : Text} (solid : ∀ y ∈ s, isLayout y = false) (t : Text) :
    s.isPrefixOf t.spaced = s.isPrefixOf t := by
  induction s generalizing t with
  | nil => simp
  | cons y s ih =>
    obtain ⟨first, solid⟩ := List.forall_mem_cons.1 solid
    cases t with
    | nil => rfl
    | cons x t =>
      have same : (y == spaceOf x) = (y == x) := by
        rw [Bool.eq_iff_iff, beq_iff_eq, beq_iff_eq, eq_comm, spaceOf_eq_iff first, eq_comm]
      rw [spaced_cons, List.isPrefixOf, List.isPrefixOf, same, ih solid]

end Text

/-- A token is written without white space. -/
def Solid (s : String) : Prop := ∀ y ∈ s.toList, isLayout y = false

instance (s : String) : Decidable (Solid s) := Text.decidableForall _ s.toList

namespace Cursor

@[simp] theorem rest_spaced (c : Cursor) : c.spaced.rest = c.rest.spaced := rfl

@[simp] theorem pos_spaced (c : Cursor) : c.spaced.pos = c.pos := rfl

@[simp] theorem skip_spaced (n : Nat) (c : Cursor) : c.spaced.skip n = (c.skip n).spaced := by
  rw [skip_eq, skip_eq, rest_spaced, pos_spaced, Text.drop_spaced, Text.take_spaced, Text.afterText_spaced]
  rfl

@[simp] theorem atEnd_spaced (c : Cursor) : c.spaced.atEnd = c.atEnd := List.isEmpty_map

theorem startsWith_spaced {s : String} (solid : Solid s) (c : Cursor) : c.spaced.startsWith s = c.startsWith s :=
  Text.isPrefixOf_spaced solid c.rest

theorem consume?_spaced {s : String} (solid : Solid s) (c : Cursor) :
    c.spaced.consume? s = (c.consume? s).map spaced := by
  rw [consume?, consume?, startsWith_spaced solid, skip_spaced]
  split <;> rfl

end Cursor

namespace Lexical

/-! ## White space -/

theorem gapFrom_spaced (comment : Bool) (t : Text) : gapFrom comment t.spaced = gapFrom comment t := by
  induction t generalizing comment with
  | nil => rfl
  | cons x t ih =>
    cases comment with
    | true =>
      have line : (spaceOf x != '\n') = (x != '\n') := of_spaceOf (f := (· != '\n')) rfl rfl x
      rw [Text.spaced_cons, gapFrom, gapFrom, line, ih]
    | false =>
      have slash : (spaceOf x == '/') = (x == '/') := of_spaceOf (f := (· == '/')) rfl rfl x
      have next : ((Text.spaced t).head? == some '/') = (t.head? == some '/') := by
        cases t with
        | nil => rfl
        | cons y t => exact of_spaceOf (f := fun y => some y == some '/') rfl rfl y
      rw [Text.spaced_cons, gapFrom, gapFrom, isLayout_spaceOf, slash, next, ih, ih]

theorem gap_spaced (t : Text) : gap t.spaced = gap t := gapFrom_spaced false t

@[simp] theorem skipGap_spaced (c : Cursor) : skipGap c.spaced = (skipGap c).spaced := by
  rw [skipGap, Cursor.rest_spaced, gap_spaced, Cursor.skip_spaced, skipGap]

end Lexical

/-- The cursor does not stand in front of white space. -/
def Cursor.Clear (c : Cursor) : Prop := ∀ x ∈ c.rest.head?, isLayout x = false

/-- There are neither quotes nor backslashes in the text. -/
def Text.Unquoted (t : Text) : Prop := ∀ x ∈ t, isQuote x = false ∧ x ≠ '\\'

instance (t : Text) : Decidable t.Unquoted := Text.decidableForall _ t

/-- The terminator takes a parenthesis for a space. -/
def Terminator.Blind (term : Terminator) : Prop := ∀ t, term (Text.spaced t) = term t

namespace Terminator

theorem blind_never : never.Blind := fun _ => rfl

theorem Blind.or {a b : Terminator} (ha : a.Blind) (hb : b.Blind) : (a.or b).Blind := by
  intro t
  rw [Terminator.or, Terminator.or, ha, hb]

theorem blind_tokens {ts : List String} (solid : ∀ s ∈ ts, Solid s) : (tokens ts).Blind := by
  intro t
  have same (s : String) (inside : s ∈ ts) : s.toList.isPrefixOf (Text.spaced t) = s.toList.isPrefixOf t :=
    Text.isPrefixOf_spaced (solid s inside) t
  unfold tokens
  rw [Bool.eq_iff_iff, List.any_eq_true, List.any_eq_true]
  exact exists_congr fun s => and_congr_right fun inside => by rw [same s inside]

theorem blind_statement : statement.Blind := by
  intro t
  cases t with
  | nil => rfl
  | cons x t =>
    have next : ((Text.spaced t).head? != some '=') = (t.head? != some '=') := by
      cases t with
      | nil => rfl
      | cons y t => exact of_spaceOf (f := fun y => some y != some '=') rfl rfl y
    have question : (spaceOf x == '?') = (x == '?') := of_spaceOf (f := (· == '?')) rfl rfl x
    have bang : (spaceOf x == '!') = (x == '!') := of_spaceOf (f := (· == '!')) rfl rfl x
    rw [Text.spaced_cons, statement_cons, statement_cons, next, question, bang]

theorem blind_name : name.Blind := by
  intro t
  cases t with
  | nil => rfl
  | cons x t => exact of_spaceOf (f := isNameStop) rfl rfl x

end Terminator

namespace Lexical

theorem clear_skipGap (c : Cursor) : (skipGap c).Clear := by
  intro x first
  obtain ⟨t, text⟩ := List.head?_eq_some_iff.1 first
  have none := gap_skipGap c
  rw [text] at none
  exact isLayout_of_gap_eq_zero none

/-! ## Words -/

section Words

variable {term : Terminator}

theorem wordLength_spaced (blind : term.Blind) (first : Bool) (t : Text) :
    wordLength term first t.spaced = wordLength term first t := by
  induction t generalizing first with
  | nil => rfl
  | cons x t ih =>
    have stops : term (spaceOf x :: Text.spaced t) = term (x :: t) := blind (x :: t)
    rw [Text.spaced_cons, wordLength, wordLength, isLayout_spaceOf, stops, ih]

/-- A word has no white space in it. -/
theorem solid_of_wordLength (term : Terminator) (first : Bool) (t : Text) :
    ∀ x ∈ t.take (wordLength term first t), isLayout x = false := by
  induction t generalizing first with
  | nil =>
    rw [List.take_nil]
    exact List.forall_mem_nil _
  | cons y t ih =>
    rw [wordLength]
    split
    · exact List.forall_mem_nil _
    · next solid =>
      split
      · exact List.forall_mem_nil _
      · rw [List.take_succ_cons]
        exact List.forall_mem_cons.2 ⟨Bool.eq_false_iff.2 solid, ih false⟩

theorem identifier_spaced (blind : term.Blind) (c : Cursor) :
    identifier term c.spaced = (identifier term c).map (Prod.map id Cursor.spaced) := by
  rw [identifier_eq, identifier_eq, Cursor.rest_spaced, wordLength_spaced blind, Text.take_spaced,
    Text.spaced_of_solid (solid_of_wordLength term true c.rest), Cursor.skip_spaced]
  split <;> rfl

theorem bindingName_spaced {c : Cursor} (clear : c.Clear) :
    bindingName c.spaced = (bindingName c).map (Prod.map id Cursor.spaced) := by
  have named := identifier_spaced Terminator.blind_name c
  obtain ⟨t, p⟩ := c
  cases t with
  | nil => exact named
  | cons x t =>
    have same : spaceOf x = x := spaceOf_of_solid (clear x rfl)
    rw [Cursor.spaced, Text.spaced_cons, same] at named ⊢
    unfold bindingName
    dsimp only
    rw [named]
    split <;> rfl

theorem startsWord_spaced (t : Text) : startsWord t.spaced = startsWord t := by
  cases t with
  | nil => rfl
  | cons x t => exact of_spaceOf (f := isWordChar) rfl rfl x

theorem keyword?_spaced {word : String} (solid : Solid word) (c : Cursor) :
    keyword? word c.spaced = (keyword? word c).map Cursor.spaced := by
  unfold keyword?
  rw [Cursor.consume?_spaced solid]
  cases c.consume? word with
  | none => rfl
  | some d =>
    have runs : startsWord d.spaced.rest = startsWord d.rest := startsWord_spaced d.rest
    dsimp only [Option.map_some]
    rw [runs]
    split <;> rfl

theorem firstWord?_spaced {α : Type} {words : List (String × α)} (solid : ∀ w ∈ words, Solid w.1) (c : Cursor) :
    firstWord? c.spaced words = (firstWord? c words).map (Prod.map id Cursor.spaced) := by
  induction words with
  | nil => rfl
  | cons w words ih =>
    obtain ⟨first, solid⟩ := List.forall_mem_cons.1 solid
    rw [firstWord?, firstWord?, keyword?_spaced first, ih solid]
    cases keyword? w.1 c <;> rfl

/-! ## Literals and keys -/

/-- A number does not reach over white space. -/
theorem numeral_spaced (t : Text) : numeral t.spaced = numeral t := by
  have whole := List.takeWhile_append_dropWhile (p := fun x => !isLayout x) (l := t)
  have solid : ∀ x ∈ t.takeWhile fun x => !isLayout x, isLayout x = false := fun x inside => by
    simpa using List.all_eq_true.1 List.all_takeWhile x inside
  rw [← whole]
  generalize t.takeWhile (fun x => !isLayout x) = w at solid
  have first : ∀ x ∈ (t.dropWhile fun x => !isLayout x).head?, isLayout x = true := fun x first => by
    have := List.head?_dropWhile_not (fun x => !isLayout x) t
    rw [first] at this
    simpa using this
  generalize t.dropWhile (fun x => !isLayout x) = X at first
  have text : Text.spaced (w ++ X) = w ++ Text.spaced X := by
    rw [Text.spaced, List.map_append]
    exact congrArg (· ++ Text.spaced X) (Text.spaced_of_solid solid)
  rw [text]
  cases X with
  | nil => rfl
  | cons x X =>
    have layout := first x rfl
    rw [numeral_onto (edged_of_layout layout X)]
    exact numeral_onto (edged_of_layout ((isLayout_spaceOf x).trans layout) (Text.spaced X)) w

theorem number_spaced (c : Cursor) : number c.spaced = (number c).map (Prod.map id Cursor.spaced) := by
  unfold number
  rw [Cursor.rest_spaced, numeral_spaced]
  cases numeral c.rest with
  | error detail => rfl
  | ok r =>
    dsimp only
    rw [Cursor.skip_spaced, Cursor.rest_spaced, startsWord_spaced]
    split <;> rfl

theorem quote_spaced {t : Text} (unquoted : t.Unquoted) :
    t.head?.any isQuote = false ∧ t.spaced.head?.any isQuote = false := by
  cases t with
  | nil => exact ⟨rfl, rfl⟩
  | cons x t =>
    have plain := (unquoted x List.mem_cons_self).1
    exact ⟨plain, (of_spaceOf (f := isQuote) rfl rfl x).trans plain⟩

theorem literal_spaced {c : Cursor} (unquoted : c.rest.Unquoted) :
    literal c.spaced = (literal c).map (Prod.map id Cursor.spaced) := by
  obtain ⟨here, there⟩ := quote_spaced unquoted
  unfold literal
  rw [firstWord?_spaced (by decide), Cursor.rest_spaced, here, there, number_spaced]
  cases firstWord? c literalWords <;> rfl

theorem objectKey_spaced {c : Cursor} (unquoted : c.rest.Unquoted) :
    objectKey c.spaced = (objectKey c).map (Prod.map id Cursor.spaced) := by
  obtain ⟨here, there⟩ := quote_spaced unquoted
  unfold objectKey
  rw [Cursor.rest_spaced, here, there]
  exact identifier_spaced (Terminator.blind_tokens (by decide)) c

/-! ## Operators -/

theorem solid_token (op : BinaryOp) : Solid op.token := by cases op <;> decide

theorem binaryOperator_spaced (c : Cursor) :
    binaryOperator c.spaced = (binaryOperator c).map (Prod.map id Cursor.spaced) := by
  have same : (fun op : BinaryOp => c.spaced.startsWith op.token) = fun op => c.startsWith op.token :=
    funext fun op => Cursor.startsWith_spaced (solid_token op) c
  unfold binaryOperator
  rw [same]
  split
  · rfl
  · dsimp only
    rw [Cursor.skip_spaced, Cursor.startsWith_spaced (by decide)]
    split <;> rfl

theorem unaryOfChar?_spaceOf (x : Char) : unaryOfChar? (spaceOf x) = unaryOfChar? x := of_spaceOf rfl rfl x

theorem runsFrom_spaced (runs : List UnaryRun) (n : Nat) (t : Text) :
    runsFrom runs n t.spaced = runsFrom runs n t := by
  induction t generalizing runs n with
  | nil => rfl
  | cons x t ih =>
    rw [Text.spaced_cons]
    cases n with
    | succ n => rw [runsFrom, runsFrom, ih]
    | zero =>
      rw [runsFrom, runsFrom, unaryOfChar?_spaceOf]
      cases unaryOfChar? x with
      | none => rfl
      | some op =>
        dsimp only
        rw [gap_spaced, ih]

theorem unaryRuns_spaced (c : Cursor) : unaryRuns c.spaced = Prod.map id Cursor.spaced (unaryRuns c) := by
  unfold unaryRuns
  rw [Cursor.rest_spaced, runsFrom_spaced]
  dsimp only
  rw [Cursor.skip_spaced]
  rfl

/-! ## Blocks and sources -/

theorem startsComment_spaced (t : Text) : startsComment t.spaced = startsComment t := by
  cases t with
  | nil => rfl
  | cons x t =>
    have slash : (spaceOf x == '/') = (x == '/') := of_spaceOf (f := (· == '/')) rfl rfl x
    have next : ((Text.spaced t).head? == some '/') = (t.head? == some '/') := by
      cases t with
      | nil => rfl
      | cons y t => exact of_spaceOf (f := fun y => some y == some '/') rfl rfl y
    rw [Text.spaced_cons, startsComment_cons, startsComment_cons, slash, next]

end Words

end Lexical

namespace Text.Unquoted

variable {x : Char} {t : Text}

theorem spaced (h : Unquoted t) : t.spaced.Unquoted := by
  intro y inside
  obtain ⟨x, among, rfl⟩ := List.mem_map.1 inside
  rw [of_spaceOf (f := isQuote) rfl rfl]
  refine ⟨(h x among).1, fun slash => (h x among).2 ?_⟩
  exact (spaceOf_eq_iff rfl x).1 slash

theorem tail (h : Unquoted (x :: t)) : Unquoted t := fun y inside => h y (List.mem_cons_of_mem x inside)

/-- Nothing is hidden in the text but comments. -/
theorem hidden?_eq_none (h : Unquoted (x :: t)) : hidden? (x :: t) = none := by
  obtain ⟨noQuote, noSlash⟩ := h x List.mem_cons_self
  rw [hidden?_cons noSlash, quotedLength?_plain (Bool.eq_false_iff.1 noQuote)]

theorem of_reaches {c d : Cursor} (h : c.rest.Unquoted) (reach : c.Reaches d) : d.rest.Unquoted :=
  fun x inside => h x (reach.suffix.subset inside)

end Text.Unquoted

namespace Lexical

theorem hiddenOrComment?_spaced {x : Char} {t : Text} (unquoted : Text.Unquoted (x :: t)) :
    hiddenOrComment? (Text.spaced (x :: t)) = hiddenOrComment? (x :: t) := by
  rw [hiddenOrComment?, hiddenOrComment?, startsComment_spaced, gap_spaced, unquoted.hidden?_eq_none]
  rw [show hidden? (Text.spaced (x :: t)) = none from unquoted.spaced.hidden?_eq_none]

theorem blockLength_spaced (depth n : Nat) {t : Text} (unquoted : t.Unquoted) :
    blockLength depth n t.spaced = blockLength depth n t := by
  induction t generalizing depth n with
  | nil => rfl
  | cons x t ih =>
    have ih (depth n : Nat) := ih depth n unquoted.tail
    have pieces := hiddenOrComment?_spaced unquoted
    rw [Text.spaced_cons] at pieces ⊢
    cases n with
    | succ n => rw [blockLength, blockLength, ih]
    | zero =>
      have opens : (spaceOf x == '\x7b') = (x == '\x7b') := of_spaceOf (f := (· == '\x7b')) rfl rfl x
      have closes : (spaceOf x == '\x7d') = (x == '\x7d') := of_spaceOf (f := (· == '\x7d')) rfl rfl x
      rw [blockLength, blockLength, pieces, opens, closes]
      simp only [ih]

theorem sourceLength_spaced {term : Terminator} (blind : term.Blind) (depth n : Nat) {t : Text}
    (unquoted : t.Unquoted) : sourceLength term depth n t.spaced = sourceLength term depth n t := by
  induction t generalizing depth n with
  | nil => rfl
  | cons x t ih =>
    have ih (depth n : Nat) := ih depth n unquoted.tail
    have stops := (Terminator.blind_statement.or blind) (x :: t)
    have nothing : hidden? (Text.spaced (x :: t)) = none := unquoted.spaced.hidden?_eq_none
    rw [Terminator.or, Terminator.or] at stops
    rw [Text.spaced_cons] at stops nothing ⊢
    cases n with
    | succ n => rw [sourceLength, sourceLength, ih]
    | zero =>
      have opens : opensBracket (spaceOf x) = opensBracket x := of_spaceOf rfl rfl x
      have closes : closesBracket (spaceOf x) = closesBracket x := of_spaceOf rfl rfl x
      rw [sourceLength, sourceLength, stops, nothing, unquoted.hidden?_eq_none, opens, closes]
      simp only [ih]

theorem block_spaced {c : Cursor} (unquoted : c.rest.Unquoted) :
    block c.spaced = (block c).map (Prod.map Cursor.spaced Cursor.spaced) := by
  unfold block
  rw [Cursor.consume?_spaced (by decide)]
  cases opened : c.consume? "\x7b" with
  | none => rfl
  | some start =>
    dsimp only [Option.map_some]
    rw [Cursor.rest_spaced, blockLength_spaced 1 0 (unquoted.of_reaches (Cursor.reaches_consume? opened))]
    cases blockLength 1 0 start.rest with
    | none => rfl
    | some n =>
      dsimp only
      rw [Cursor.skip_spaced, Text.take_spaced]
      rfl

theorem expressionSource_spaced {term : Terminator} (blind : term.Blind) {c : Cursor} (unquoted : c.rest.Unquoted) :
    expressionSource term c.spaced = Prod.map Text.spaced Cursor.spaced (expressionSource term c) := by
  unfold expressionSource
  dsimp only
  rw [Cursor.rest_spaced, sourceLength_spaced blind 0 0 unquoted, Cursor.skip_spaced, Text.take_spaced]
  rfl

theorem unescapeUntil_spaced {term : Terminator} (blind : term.Blind) {t : Text} (unquoted : t.Unquoted) :
    unescapeUntil term t.spaced = Prod.map Text.spaced id (unescapeUntil term t) := by
  induction t with
  | nil => rfl
  | cons x t ih =>
    have stops := blind (x :: t)
    have escape := (unquoted.spaced (spaceOf x) List.mem_cons_self).2
    rw [Text.spaced_cons] at stops ⊢
    rw [unescapeUntil_plain escape, unescapeUntil_plain (unquoted x List.mem_cons_self).2, stops, ih unquoted.tail]
    split <;> rfl

/-- Without backslashes nothing is taken out of the text. -/
theorem unescapeUntil_prefix (term : Terminator) {t : Text} (unquoted : t.Unquoted) :
    (unescapeUntil term t).1 <+: t := by
  induction t with
  | nil => exact List.prefix_rfl
  | cons x t ih =>
    rw [unescapeUntil_plain (unquoted x List.mem_cons_self).2]
    split
    · exact List.nil_prefix
    · exact List.cons_prefix_cons.2 ⟨rfl, ih unquoted.tail⟩

theorem chunk_spaced {term : Terminator} (blind : term.Blind) {c : Cursor} (unquoted : c.rest.Unquoted) :
    chunk term c.spaced = (chunk term c).map (Prod.map Text.spaced Cursor.spaced) := by
  unfold chunk
  rw [Cursor.rest_spaced, unescapeUntil_spaced blind unquoted]
  obtain ⟨t, n⟩ := unescapeUntil term c.rest
  cases n with
  | zero => rfl
  | succ n => exact congrArg (fun d => Except.ok (Text.spaced t, d)) (Cursor.skip_spaced _ c)

/-- A chunk begins as the text does. -/
theorem clear_chunk {term : Terminator} {c d : Cursor} {t : Text} (clear : c.Clear) (unquoted : c.rest.Unquoted)
    (read : chunk term c = .ok (t, d)) : ∀ x ∈ t.head?, isLayout x = false := by
  have part : t <+: c.rest := by
    have first := unescapeUntil_prefix term unquoted
    unfold chunk at read
    split at read
    · cases read
    · next same =>
      cases read
      rwa [same] at first
  obtain ⟨u, whole⟩ := part
  cases t with
  | nil => exact nofun
  | cons x t =>
    rintro _ ⟨⟩
    exact clear x (by rw [← whole]; rfl)

/-! ## What is kept as it is written -/

/-- Both readers fail, or both read something and stop at the same place. -/
inductive Aligned {α : Type} : Except ParseError (α × Cursor) → Except ParseError (α × Cursor) → Prop
  | ok (a a' : α) (d : Cursor) : Aligned (.ok (a, d)) (.ok (a', d.spaced))
  | error (e e' : ParseError) : Aligned (.error e) (.error e')

theorem Aligned.map {α β : Type} {r r' : Except ParseError (α × Cursor)} (h : Aligned r r') (f : α → β) :
    Aligned (r.map fun (a, d) => (f a, d)) (r'.map fun (a, d) => (f a, d)) := by
  cases h with
  | ok a a' d => exact .ok (f a) (f a') d
  | error e e' => exact .error e e'

theorem paramsFrom_spaced (fuel : Nat) (c : Cursor) :
    paramsFrom fuel c.spaced = (paramsFrom fuel c).map (Prod.map id Cursor.spaced) := by
  induction fuel generalizing c with
  | zero => rfl
  | succ fuel ih =>
    rw [paramsFrom, paramsFrom]
    dsimp only
    rw [skipGap_spaced, Cursor.startsWith_spaced (by decide), bindingName_spaced (clear_skipGap c)]
    split
    · rfl
    · cases bindingName (skipGap c) with
      | error e => rfl
      | ok r =>
        obtain ⟨name, d⟩ := r
        dsimp only [Except.map, Prod.map_apply]
        rw [skipGap_spaced, Cursor.consume?_spaced (by decide)]
        cases (skipGap d).consume? "," with
        | none => rfl
        | some d =>
          dsimp only [Option.map_some]
          rw [ih]
          cases paramsFrom fuel d <;> rfl

theorem params_spaced (c : Cursor) : params c.spaced = (params c).map (Prod.map id Cursor.spaced) := by
  rw [params, Cursor.rest_spaced, Text.length_spaced, paramsFrom_spaced, params]

/-- What is left of a text that begins behind white space is empty only if the text is. -/
theorem trimLine_eq_nil_iff {t : Text} (clear : ∀ x ∈ t.head?, isLayout x = false) :
    Text.trimLine t = [] ↔ t = [] := by
  cases t with
  | nil => exact iff_of_true rfl rfl
  | cons x t => exact iff_of_false (Behind.trimLine_ne_nil (clear x rfl) t) (List.cons_ne_nil x t)

theorem clear_spaced {t : Text} (clear : ∀ x ∈ t.head?, isLayout x = false) :
    ∀ x ∈ (Text.spaced t).head?, isLayout x = false := by
  cases t with
  | nil => exact nofun
  | cons x t =>
    rintro _ ⟨⟩
    exact (isLayout_spaceOf x).trans (clear x rfl)

theorem clear_take {t : Text} (clear : ∀ x ∈ t.head?, isLayout x = false) (n : Nat) :
    ∀ x ∈ (t.take n).head?, isLayout x = false := by
  cases n with
  | zero => exact nofun
  | succ n =>
    cases t with
    | nil => exact nofun
    | cons x t => exact clear

/-- Of a text that begins behind white space something is left if something is left of the spaced text. -/
theorem aligned_trimmed {α : Type} {t : Text} (clear : ∀ x ∈ t.head?, isLayout x = false) (e e' : ParseError)
    (f f' : Text → α) (d : Cursor) :
    Aligned (match Text.trimLine t with
      | [] => .error e
      | text => .ok (f text, d)) (match Text.trimLine (Text.spaced t) with
      | [] => .error e'
      | text => .ok (f' text, d.spaced)) := by
  cases t with
  | nil => exact .error e e'
  | cons x t =>
    obtain ⟨y, s, here⟩ := List.exists_cons_of_ne_nil
      (mt (trimLine_eq_nil_iff clear).1 (List.cons_ne_nil x t))
    obtain ⟨y', s', there⟩ := List.exists_cons_of_ne_nil
      (mt (trimLine_eq_nil_iff (clear_spaced clear)).1 (List.cons_ne_nil (spaceOf x) (Text.spaced t)))
    rw [here, there]
    exact .ok _ _ d

theorem aligned_functionBody {term : Terminator} (blind : term.Blind) {c : Cursor} (unquoted : c.rest.Unquoted) :
    Aligned (functionBody term c) (functionBody term c.spaced) := by
  have clear := clear_skipGap c
  have unquoted := unquoted.of_reaches (Cursor.reaches_skipGap c)
  unfold functionBody
  rw [skipGap_spaced]
  generalize skipGap c = c at clear unquoted
  dsimp only
  rw [Cursor.startsWith_spaced (by decide), block_spaced unquoted, expressionSource_spaced blind unquoted]
  split
  · cases block c with
    | error e => exact .error e e
    | ok r => exact .ok _ _ r.2
  · exact aligned_trimmed (clear_take clear _) _ _ (Body.script · c.pos false) (Body.script · c.pos false) _

theorem aligned_arrow {term : Terminator} (blind : term.Blind) (f : Body → Function) {c : Cursor}
    (unquoted : c.rest.Unquoted) : Aligned (Behind.arrow term f c) (Behind.arrow term f c.spaced) := by
  unfold Behind.arrow
  rw [skipGap_spaced, Cursor.consume?_spaced (by decide)]
  cases arrow : (skipGap c).consume? "=>" with
  | none => exact .error _ _
  | some d =>
    have behind := (Cursor.reaches_skipGap c).trans (Cursor.reaches_consume? arrow)
    exact (aligned_functionBody blind (unquoted.of_reaches behind)).map f

theorem aligned_functionLiteral {term : Terminator} (blind : term.Blind) {c : Cursor} (unquoted : c.rest.Unquoted) :
    Aligned (functionLiteral term c) (functionLiteral term c.spaced) := by
  rw [Behind.functionLiteral_eq, Behind.functionLiteral_eq, params_spaced]
  cases read : params c with
  | error e => exact .error e e
  | ok r =>
    have unquoted := unquoted.of_reaches (reaches_params read)
    exact aligned_arrow blind (fun body => { params := r.1, body := body, line := c.pos.line }) unquoted

/-- Behind white space, a text nobody quoted is read in both texts or in neither. -/
theorem aligned_implicitString {term : Terminator} (blind : term.Blind) {c : Cursor} (clear : c.Clear)
    (unquoted : c.rest.Unquoted) : Aligned (implicitString term c) (implicitString term c.spaced) := by
  unfold implicitString
  rw [Cursor.startsWith_spaced (by decide), chunk_spaced (Terminator.blind_statement.or blind) unquoted]
  split
  · exact .error _ _
  · cases read : chunk (Terminator.statement.or term) c with
    | error e => exact .error e e
    | ok r =>
      obtain ⟨t, d⟩ := r
      exact aligned_trimmed (clear_chunk clear unquoted read) _ _
        (fun s => Base.literal (.string (String.ofList s)) true)
        (fun s => Base.literal (.string (String.ofList s)) true) d

end Lexical

end Gapscript
