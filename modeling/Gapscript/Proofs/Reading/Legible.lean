import Gapscript.Proofs.Reading.Scan
import Gapscript.Proofs.Reading.Advance
import Gapscript.Proofs.Text.Trim

/-!
# Legible texts

What stands between quotes, in a block or behind a slash reads differently to a reader of expressions and to a
scan that only looks at quotes and brackets. A name, a bare word or a body that is kept as text is legible if
none of its characters means something else to the scan; the scan then passes over what was read as the reader
did. Nothing is asked of quoted strings, numbers, keywords and operators.
-/

namespace Gapscript

open Lexical Cursor

/-! ## Texts -/

/-- No declaration starts with the character. -/
def Lexical.startsOther (x : Char) : Bool := x != 'c' && x != 'v'

theorem Lexical.startsOther_iff {x : Char} : startsOther x = true ↔ x ≠ 'c' ∧ x ≠ 'v' := by
  rw [startsOther, Bool.and_eq_true, bne_iff_ne, bne_iff_ne]

namespace Text

/-- Every slash in the text is followed by something else than a slash. -/
def singleSlashes : Text → Bool
  | [] => true
  | x :: t => (x != '/' || t.head?.any (· != '/')) && singleSlashes t

/-- No declaration starts behind a closing brace in the text. -/
def steady : Text → Bool
  | [] => true
  | x :: t => (x != '\x7d' || (t.dropWhile isLayout).head?.all startsOther) && steady t

/-- The text has no quotes, escapes, brackets and comments. -/
def unmarked (t : Text) : Bool := t.all (!isMark ·) && t.singleSlashes

/-- The text, read as the source of an expression, has no comments and no declarations. -/
def sourced (t : Text) : Bool := t.singleSlashes && t.steady

end Text

/-! ## Trees -/

/-- The body of a function is legible. -/
def Body.legible : Body → Bool
  | .script text _ true => closesSquares 0 0 text
  | .script text _ false => text.sourced
  | .native .. => true

/-- The names and the body of the function are legible. -/
def Function.legible (fn : Function) : Bool :=
  inertName fn.name && fn.params.all inertName && fn.body.legible

mutual

/-- Every name and every text in the tree is legible. -/
def Expr.legible : Expr → Bool
  | .atom b accs _ => b.legible && Accessor.allLegible accs
  | .unary _ e => e.legible
  | .binary _ l r => l.legible && r.legible

/-- Every name and every text in the base is legible. -/
def Base.legible : Base → Bool
  | .literal (.string s) true => Text.unmarked s.toList
  | .literal _ _ => true
  | .name name _ => inertName name
  | .call name _ args _ => inertName name && Expr.allLegible args
  | .object keys values => keys.all inertName && Expr.allLegible values
  | .array elements => Expr.allLegible elements
  | .function fn => fn.legible

/-- Every name and every text in the trees is legible. -/
def Expr.allLegible : List Expr → Bool
  | [] => true
  | e :: es => e.legible && Expr.allLegible es

/-- Every name and every text in the accessors is legible. -/
def Accessor.allLegible : List Accessor → Bool
  | [] => true
  | .dot name :: accs => inertName name && Accessor.allLegible accs
  | .index e :: accs => e.legible && Accessor.allLegible accs

end

/-- The guard and the body of the branch are legible. -/
def Branch.legible (b : Branch) : Bool := b.guard.all (·.tree.legible) && closesSquares 0 0 b.body.rest

/-- Every name and every text in the statement is legible. -/
def Statement.legible : Statement → Bool
  | .declaration header value _ => inertName header.name && value.legible
  | .assignment a _ => inertName a.name && Accessor.allLegible a.accessors && a.value.all Expr.legible
  | .block body => closesSquares 0 0 body.rest
  | .conditional bs | .watch bs _ => bs.all Branch.legible
  | .function fn => fn.legible
  | .giveBack value _ => value.all Expr.legible
  | .call value _ | .expression value _ => value.legible

/-! ## Characters -/

namespace Lexical

/-- The characters that are not inert. -/
def notable : List Char := "\"'\\\x7b\x7d[]/!?".toList

theorem mem_notable {x : Char} (h : isInert x = false) : x ∈ notable := by
  simp only [isInert, isMark, isQuote, opensBracket, closesBracket, Bool.and_eq_false_iff, Bool.not_eq_false',
    Bool.or_eq_true, beq_iff_eq, bne_eq_false_iff_eq] at h
  rcases h with ((((((h | h) | h) | (h | h)) | (h | h)) | h) | h) | h <;> subst h <;> decide

/-- A character of a kind that no notable character is of. -/
theorem isInert_of {P : Char → Bool} {x : Char} (holds : P x = true) (clear : notable.all (!P ·) = true) :
    isInert x = true := by
  cases inert : isInert x with
  | true => rfl
  | false =>
    have other := List.all_eq_true.1 clear x (mem_notable inert)
    rw [holds] at other
    cases other

theorem isInert_of_isBlank {x : Char} (blank : Text.isBlank x = true) : isInert x = true :=
  isInert_of blank (by decide)

theorem isInert_of_isLineSpace {x : Char} (space : Text.isLineSpace x = true) : isInert x = true :=
  isInert_of space (by decide)

end Lexical

/-! ## Words -/

namespace Cursor

variable {c d e : Cursor} {x : Char} {t u : Text} {p : Position}

theorem even_next (inert : ∀ x ∈ c.rest.head?, isInert x = true) : c.Even c.next := by
  obtain ⟨t, p⟩ := c
  cases t with
  | nil => exact .refl _
  | cons x t => exact even_inert (inert x rfl)

theorem even_identifier {term : Terminator} {name : String} (h : identifier term c = .ok (name, d))
    (legible : inertName name = true) : c.Even d := by
  unfold identifier at h
  split at h
  · cases h
  · cases h
    rw [inertName, String.toList_ofList, List.all_eq_true] at legible
    exact even_skip legible

theorem even_bindingName {name : String} (h : bindingName c = .ok (name, d)) (legible : inertName name = true) :
    c.Even d := by
  unfold bindingName at h
  split at h
  · split at h
    · cases h
    · exact even_identifier h legible
  · exact even_identifier h legible

theorem even_keyword? {word : String} (inert : inertName word = true)
    (h : keyword? word c = some d) : c.Even d := by
  unfold keyword? at h
  split at h
  · next consumed =>
    split at h
    · cases h
    · cases h
      exact even_consume? inert consumed
  · cases h

theorem even_firstWord? {α : Type} {words : List (String × α)} {a : α}
    (inert : ∀ w ∈ words, inertName w.1 = true) (h : firstWord? c words = some (a, d)) :
    c.Even d := by
  induction words with
  | nil => cases h
  | cons w words ih =>
    obtain ⟨first, later⟩ := List.forall_mem_cons.1 inert
    rw [firstWord?] at h
    split at h
    · next found =>
      cases h
      exact even_keyword? first found
    · exact ih later h

/-! ## Literals -/

theorem even_quotedString {s : Text} (h : quotedString c = .ok (s, d)) : c.Even d := by
  have passed := (passes_quotedString h).length_lt
  unfold quotedString at h
  split at h
  · next n found =>
    cases h
    have something : 0 < n := Nat.pos_of_ne_zero fun none => by
      subst none
      exact Nat.lt_irrefl _ passed
    refine even_hidden ?_ something
    obtain ⟨t, p⟩ := c
    cases t with
    | nil => cases found
    | cons x t =>
      have quote : isQuote x = true := by
        refine Decidable.byContradiction fun plain => ?_
        have none := quotedLength?_plain plain t
        rw [quotedLength?, found] at none
        cases none
      have plain : x ≠ '\\' ∧ x ≠ '/' := by
        rw [isQuote, Bool.or_eq_true, beq_iff_eq, beq_iff_eq] at quote
        rcases quote with rfl | rfl <;> decide
      rw [hiddenOrComment?, startsComment_eq_false fun slash => absurd slash plain.2, if_neg Bool.false_ne_true,
        hidden?_cons plain.1, quotedLength?, found]
      rfl
  · cases h

theorem isInert_of_isDigit {x : Char} (digit : x.isDigit = true) : isInert x = true :=
  isInert_of digit (by decide)

theorem inert_digits (t : Text) : ∀ x ∈ digits t, isInert x = true :=
  fun x hx => isInert_of_isDigit (List.all_eq_true.1 List.all_takeWhile x hx)

theorem take_digits (t : Text) : t.take (digits t).length = digits t :=
  (List.prefix_iff_eq_take.1 (List.takeWhile_prefix _)).symm

theorem inert_fraction (t : Text) : ∀ x ∈ t.take (fractionLength t), isInert x = true := by
  unfold fractionLength
  split
  · next t =>
    split
    · simp
    · next some =>
      rw [List.take_succ_cons, take_digits, List.forall_mem_cons]
      exact ⟨rfl, inert_digits t⟩
  · simp

theorem inert_signed {sign : Nat} (signed : ∀ x ∈ t.take sign, isInert x = true) :
    ∀ x ∈ t.take ((digits (t.drop sign)).length + sign), isInert x = true := by
  rw [Nat.add_comm, List.take_add, take_digits]
  exact fun x hx => (List.mem_append.1 hx).elim (signed x) (inert_digits _ x)

theorem inert_exponent (t : Text) : ∀ x ∈ t.take (exponentLength t), isInert x = true := by
  cases t with
  | nil => simp
  | cons m t =>
    unfold exponentLength
    dsimp only
    split
    · next mark =>
      have first : isInert m = true := isInert_of (P := fun m => m == 'e' || m == 'E') mark (by decide)
      split
      · simp
      · rw [List.take_succ_cons, List.forall_mem_cons]
        refine ⟨first, inert_signed ?_⟩
        split
        · exact fun x hx => List.mem_singleton.1 hx ▸ rfl
        · exact fun x hx => List.mem_singleton.1 hx ▸ rfl
        · simp
    · simp

theorem inert_numeral {v : Value} {n : Nat} (h : numeral t = .ok (v, n)) : ∀ x ∈ t.take n, isInert x = true := by
  unfold numeral at h
  dsimp only at h
  split at h
  · cases h
  · split at h
    · next big =>
      cases h
      intro x hx
      rw [List.take_add, take_digits] at hx
      rcases List.mem_append.1 hx with hx | hx
      · exact inert_digits t x hx
      · obtain ⟨rest, hrest⟩ := List.head?_eq_some_iff.1 big.2
        rw [hrest, List.take_succ_cons, List.take_zero, List.mem_singleton] at hx
        subst hx
        rfl
    · split at h
      · cases h
        intro x hx
        rw [List.take_add, List.take_add, take_digits] at hx
        rcases List.mem_append.1 hx with hx | hx
        · rcases List.mem_append.1 hx with hx | hx
          · exact inert_digits t x hx
          · exact inert_fraction _ x hx
        · exact inert_exponent _ x hx
      · cases h

theorem inert_literalWords : ∀ w ∈ literalWords, inertName w.1 = true := by
  simp only [literalWords, List.forall_mem_cons]
  decide

theorem even_literal {v : Value} (h : literal c = .ok (v, d)) : c.Even d := by
  unfold literal at h
  split at h
  · next found =>
    cases h
    exact even_firstWord? inert_literalWords found
  · split at h
    · cases hs : quotedString c with
      | error e => rw [hs] at h; cases h
      | ok r =>
        rw [hs] at h
        cases h
        exact even_quotedString hs
    · unfold number at h
      split at h
      · cases h
      · next read =>
        dsimp only at h
        split at h
        · cases h
        · cases h
          exact even_skip (inert_numeral read)

theorem even_objectKey {key : String} (h : objectKey c = .ok (key, d)) (legible : inertName key = true) :
    c.Even d := by
  unfold objectKey at h
  split at h
  · cases hs : quotedString c with
    | error e => rw [hs] at h; cases h
    | ok r =>
      rw [hs] at h
      cases h
      exact even_quotedString hs
  · exact even_identifier h legible

end Cursor

/-! ## Bare words -/

namespace Text

variable {t u : Text} {x : Char}

theorem singleSlashes_cons : singleSlashes (x :: t) = true ↔
    (x = '/' → ∃ y u, t = y :: u ∧ y ≠ '/') ∧ singleSlashes t = true := by
  rw [singleSlashes, Bool.and_eq_true, Bool.or_eq_true, bne_iff_ne, ← Decidable.imp_iff_not_or]
  cases t with
  | nil => simp
  | cons y t => simp

/-- The end of the text is without slashes. -/
theorem singleSlashes_append (clear : ∀ x ∈ u, x ≠ '/') (h : singleSlashes t = true) :
    singleSlashes (t ++ u) = true := by
  induction t with
  | nil =>
    induction u with
    | nil => rfl
    | cons x u ih =>
      obtain ⟨here, later⟩ := List.forall_mem_cons.1 clear
      exact singleSlashes_cons.2 ⟨fun slash => absurd slash here, ih later⟩
  | cons x t ih =>
    obtain ⟨here, later⟩ := singleSlashes_cons.1 h
    refine singleSlashes_cons.2 ⟨fun slash => ?_, ih later⟩
    obtain ⟨y, v, rfl, other⟩ := here slash
    exact ⟨y, v ++ u, rfl, other⟩

/-- White space at the end of a text that was dropped. -/
theorem exists_of_trimLine (t : Text) : ∃ u, t = trimLine t ++ u ∧ ∀ x ∈ u, isLineSpace x = true :=
  exists_of_dropEnd isLineSpace t

theorem unmarked_cons : unmarked (x :: t) = true ↔
    isMark x = false ∧ (x = '/' → ∃ y u, t = y :: u ∧ y ≠ '/') ∧ unmarked t = true := by
  rw [unmarked, unmarked, List.all_cons, Bool.and_eq_true, Bool.and_eq_true, Bool.and_eq_true, Bool.not_eq_true',
    singleSlashes_cons]
  constructor
  · exact fun ⟨⟨plain, plains⟩, here, later⟩ => ⟨plain, here, plains, later⟩
  · exact fun ⟨plain, here, plains, later⟩ => ⟨⟨plain, plains⟩, here, later⟩

theorem unmarked_of_trimLine (h : unmarked (trimLine t) = true) : unmarked t = true := by
  obtain ⟨u, whole, space⟩ := exists_of_trimLine t
  rw [unmarked, Bool.and_eq_true] at h
  have plain : ∀ x ∈ u, isMark x = false ∧ x ≠ '/' := by
    intro x hx
    have inert := isInert_of_isLineSpace (space x hx)
    rw [isInert, Bool.and_eq_true, Bool.and_eq_true, Bool.and_eq_true, Bool.not_eq_true', bne_iff_ne] at inert
    exact inert.1.1
  rw [whole, unmarked, Bool.and_eq_true, List.all_append, Bool.and_eq_true, List.all_eq_true (l := u)]
  exact ⟨⟨h.1, fun x hx => by rw [(plain x hx).1]; rfl⟩, singleSlashes_append (fun x hx => (plain x hx).2) h.2⟩

end Text

namespace Cursor

variable {c d e : Cursor} {x : Char} {t u : Text} {p : Position}

theorem even_unescape {term : Terminator} (stops : ∀ t, Terminator.statement t = true → term t = true)
    (legible : Text.unmarked (unescapeUntil term t).1 = true) :
    Even ⟨t, p⟩ (skip (unescapeUntil term t).2 ⟨t, p⟩) := by
  fun_induction unescapeUntil term t generalizing p with
  | case1 => exact .refl _
  | case2 => exact .refl _
  | case3 x t goes u n read ih =>
    rw [read] at ih
    obtain ⟨-, -, later⟩ := Text.unmarked_cons.1 legible
    exact (even_hidden (n := 2) rfl (by decide)).trans (ih later)
  | case4 => exact .refl _
  | case5 x t other goes u n read ih =>
    rw [read] at ih
    obtain ⟨plain, slash, later⟩ := Text.unmarked_cons.1 legible
    have apart : x = '/' → t.head? ≠ some '/' := by
      intro same ahead
      obtain ⟨y, v, rfl, apart⟩ := slash same
      obtain ⟨t, rfl⟩ := List.head?_eq_some_iff.1 ahead
      rw [unescapeUntil] at read
      split at read
      · cases read
      · cases read
        exact apart rfl
      · exact fun _ _ h => nomatch h
    have step : Even ⟨x :: t, p⟩ ⟨t, p.after x⟩ := fun depth => hoistsAt_plain plain apart fun _ => by
      cases ends : Terminator.statement (x :: t) with
      | false => rfl
      | true => exact absurd (stops _ ends) goes
    exact step.trans (ih later)

theorem even_implicitString {term : Terminator} {b : Base} (h : implicitString term c = .ok (b, d))
    (legible : b.legible = true) : c.Even d := by
  unfold implicitString at h
  split at h
  · cases h
  · split at h
    · cases h
    · next t e read =>
      split at h
      · cases h
      · cases h
        rw [Base.legible, String.toList_ofList] at legible
        have legible := Text.unmarked_of_trimLine legible
        unfold chunk at read
        split at read
        · cases read
        · next found =>
          cases read
          have stops (u : Text) (ends : Terminator.statement u = true) :
              (Terminator.statement.or term) u = true := by
            rw [Terminator.or, ends, Bool.true_or]
          have passed := even_unescape (p := c.pos) stops (t := c.rest)
          rw [found] at passed
          exact passed legible

end Cursor

/-! ## Sources of expressions -/

namespace Text

variable {t u : Text} {x : Char}

theorem steady_cons : steady (x :: t) = true ↔
    (x = '\x7d' → ∀ y ∈ (t.dropWhile isLayout).head?, y ≠ 'c' ∧ y ≠ 'v') ∧ steady t = true := by
  rw [steady, Bool.and_eq_true, Bool.or_eq_true, bne_iff_ne, ← Decidable.imp_iff_not_or]
  cases (t.dropWhile isLayout).head? with
  | none => simp
  | some y => simp [startsOther_iff]

theorem dropWhile_append_layout (space : ∀ x ∈ u, isLayout x = true) :
    ((t ++ u).dropWhile isLayout).head? = (t.dropWhile isLayout).head? := by
  induction t with
  | nil =>
    have none : (u ++ []).dropWhile isLayout = [] := List.dropWhile_append_of_pos space
    rw [List.append_nil] at none
    rw [List.nil_append, none]
    rfl
  | cons x t ih =>
    rw [List.cons_append, List.dropWhile_cons, List.dropWhile_cons]
    split
    · exact ih
    · rfl

/-- The end of the text is white space. -/
theorem steady_append (space : ∀ x ∈ u, isLayout x = true) (h : steady t = true) : steady (t ++ u) = true := by
  induction t with
  | nil =>
    induction u with
    | nil => rfl
    | cons x u ih =>
      obtain ⟨here, later⟩ := List.forall_mem_cons.1 space
      refine steady_cons.2 ⟨?_, ih later⟩
      rintro rfl
      exact absurd here (by decide)
  | cons x t ih =>
    obtain ⟨here, later⟩ := steady_cons.1 h
    exact steady_cons.2 ⟨fun brace => (dropWhile_append_layout (t := t) space).symm ▸ here brace, ih later⟩

theorem sourced_of_trimLine (h : sourced (trimLine t) = true) : sourced t = true := by
  obtain ⟨u, whole, space⟩ := exists_of_trimLine t
  rw [sourced, Bool.and_eq_true] at h
  rw [whole, sourced, Bool.and_eq_true]
  refine ⟨singleSlashes_append (fun x hx => ?_) h.1,
    steady_append (fun x hx => isLayout_of_isLineSpace (space x hx)) h.2⟩
  rintro rfl
  cases space _ hx

theorem sourced_cons : sourced (x :: t) = true ↔ (x = '/' → ∃ y u, t = y :: u ∧ y ≠ '/') ∧
    (x = '\x7d' → ∀ y ∈ (t.dropWhile isLayout).head?, y ≠ 'c' ∧ y ≠ 'v') ∧ sourced t = true := by
  rw [sourced, sourced, Bool.and_eq_true, Bool.and_eq_true, singleSlashes_cons, steady_cons]
  constructor
  · exact fun ⟨⟨slash, slashes⟩, brace, braces⟩ => ⟨slash, brace, slashes, braces⟩
  · exact fun ⟨slash, brace, slashes, braces⟩ => ⟨⟨slash, slashes⟩, brace, braces⟩

end Text

namespace Cursor

variable {c d e : Cursor} {x : Char} {t u : Text} {p : Position}

/-- Behind a brace in the source of an expression stands no declaration, unless one stands behind the
source. -/
theorem hoistAt?_sourced {T : Text} (legible : Text.sourced u = true)
    (first : ∀ y ∈ (u.dropWhile isLayout).head?, y ≠ 'c' ∧ y ≠ 'v')
    (clear : hoistAt? (skipGap ⟨T, p.afterText u⟩) = none) : hoistAt? (skipGap ⟨u ++ T, p⟩) = none := by
  induction u generalizing p with
  | nil => exact clear
  | cons x u ih =>
    obtain ⟨slash, -, later⟩ := Text.sourced_cons.1 legible
    rw [List.dropWhile_cons] at first
    rw [List.cons_append]
    cases layout : isLayout x with
    | true =>
      rw [if_pos layout] at first
      rw [skipGap_layout layout]
      exact ih later first clear
    | false =>
      rw [layout, if_neg Bool.false_ne_true] at first
      have apart : x = '/' → (u ++ T).head? ≠ some '/' := by
        intro same ahead
        obtain ⟨y, v, rfl, apart⟩ := slash same
        exact apart (Option.some.inj ahead)
      rw [skipGap_solid layout apart]
      exact hoistAt?_eq_none first

section SourceLength

variable {term : Terminator} {k : Nat}

theorem sourceLength_hidden (goes : ¬(k == 0 && (Terminator.statement (x :: t) || term (x :: t))) = true) {n : Nat}
    (hidden : hidden? (x :: t) = some n) : sourceLength term k 0 (x :: t) = sourceLength term k (n - 1) t + 1 := by
  rw [sourceLength, if_neg goes, hidden]

theorem sourceLength_single (goes : ¬(k == 0 && (Terminator.statement (x :: t) || term (x :: t))) = true)
    (single : hidden? (x :: t) = none) : sourceLength term k 0 (x :: t) =
      if opensBracket x then sourceLength term (k + 1) 0 t + 1
      else if closesBracket x then if k == 0 then 0 else sourceLength term (k - 1) 0 t + 1
      else sourceLength term k 0 t + 1 := by
  rw [sourceLength, if_neg goes, single]

end SourceLength

/-- What stands in the source of an expression starts no comment. -/
theorem hiddenOrComment?_sourced {n : Nat} (legible : Text.sourced (x :: t.take n) = true) :
    hiddenOrComment? (x :: t) = hidden? (x :: t) := by
  have apart : x = '/' → t.head? ≠ some '/' := by
    intro same ahead
    obtain ⟨y, v, split, apart⟩ := (Text.sourced_cons.1 legible).1 same
    obtain ⟨t, rfl⟩ := List.head?_eq_some_iff.1 ahead
    cases n with
    | zero => cases split
    | succ n =>
      cases split
      exact apart rfl
  rw [hiddenOrComment?, startsComment_eq_false apart, if_neg Bool.false_ne_true]

/-- Only a brace that closes the last bracket lets a statement start, and behind the source of an expression
that is none that the scan finds. -/
theorem hoistsAt_closes_sourced {n depth : Nat} (legible : Text.sourced ((x :: t).take (n + 1)) = true)
    (hidden : hidden? (x :: t) = none) (closes : closesBracket x = true)
    (clear : depth ≤ 1 → hoistAt? (skipGap (skip (n + 1) ⟨x :: t, p⟩)) = none) :
    hoistsAt ⟨x :: t, p⟩ depth false = hoistsAt ⟨t, p.after x⟩ (depth - 1) false := by
  have single := (hiddenOrComment?_sourced legible).trans hidden
  obtain ⟨-, brace, later⟩ := Text.sourced_cons.1 legible
  refine (hoistsAt_closes single closes depth).trans ?_
  cases starts : decide (depth ≤ 1) && x == '\x7d' with
  | false => rfl
  | true =>
    rw [Bool.and_eq_true, decide_eq_true_iff, beq_iff_eq] at starts
    have behind := clear starts.1
    rw [skip_succ, next_cons, skip_eq] at behind
    have nothing := hoistAt?_sourced later (brace starts.2) behind
    rw [List.take_append_drop] at nothing
    exact hoistsAt_clear nothing _ true

/-- The scan of a body passes over the source of an expression. -/
theorem hoistsFrom_source {term : Terminator} {k h : Nat} {t : Text} {p : Position}
    (legible : Text.sourced (t.take (sourceLength term k h t)) = true) {depth : Nat}
    (clear : depth = 0 → hoistAt? (skipGap (skip (sourceLength term k h t) ⟨t, p⟩)) = none) :
    hoistsFrom (depth + k) false h p t =
      (skip (sourceLength term k h t) ⟨t, p⟩).hoistsAt depth false := by
  induction t generalizing k h p with
  | nil =>
    have ended : sourceLength term k h [] = 0 := by cases h <;> rw [sourceLength]
    rw [ended, skip_zero, hoistsAt, hoistsFrom, hoistsFrom]
  | cons x t ih =>
    cases h with
    | succ h =>
      rw [sourceLength, List.take_succ_cons] at legible
      rw [sourceLength] at clear ⊢
      exact ih (Text.sourced_cons.1 legible).2.2 clear
    | zero =>
      by_cases stops : (k == 0 && (Terminator.statement (x :: t) || term (x :: t))) = true
      · have length : sourceLength term k 0 (x :: t) = 0 := by rw [sourceLength, if_pos stops]
        rw [Bool.and_eq_true, beq_iff_eq] at stops
        rw [length, stops.1]
        rfl
      cases hidden : hidden? (x :: t) with
      | some n =>
        rw [sourceLength_hidden stops hidden] at legible clear ⊢
        rw [hoistsFrom_hidden ((hiddenOrComment?_sourced legible).trans hidden)]
        exact ih (Text.sourced_cons.1 legible).2.2 clear
      | none =>
        rw [sourceLength_single stops hidden] at legible clear ⊢
        by_cases opens : opensBracket x = true
        · rw [if_pos opens] at legible clear ⊢
          have single := (hiddenOrComment?_sourced legible).trans hidden
          exact (hoistsAt_opens single opens (depth + k)).trans
            (ih (k := k + 1) (h := 0) (Text.sourced_cons.1 legible).2.2 clear)
        rw [if_neg opens] at legible clear ⊢
        by_cases closes : closesBracket x = true
        · rw [if_pos closes] at legible clear ⊢
          by_cases outer : (k == 0) = true
          · rw [if_pos outer, eq_of_beq outer]
            rfl
          rw [if_neg outer] at legible clear ⊢
          have within : k ≠ 0 := by simpa using outer
          have inner := ih (k := k - 1) (h := 0) (p := p.after x) (Text.sourced_cons.1 legible).2.2 clear
          refine (hoistsAt_closes_sourced legible hidden closes fun last => ?_).trans ?_
          · exact clear (by omega)
          · rw [show depth + k - 1 = depth + (k - 1) by omega]
            exact inner
        · rw [if_neg closes] at legible clear ⊢
          have single := (hiddenOrComment?_sourced legible).trans hidden
          refine (hoistsAt_step single (Bool.eq_false_iff.2 opens) (Bool.eq_false_iff.2 closes) fun outer => ?_).trans
            (ih (k := k) (h := 0) (Text.sourced_cons.1 legible).2.2 clear)
          refine Bool.eq_false_iff.2 fun ends => stops ?_
          rw [ends, Nat.eq_zero_of_add_eq_zero_left outer]
          rfl

theorem skips_expressionSource {term : Terminator} {c : Cursor}
    (legible : Text.sourced (expressionSource term c).1 = true) : c.Skips (expressionSource term c).2 :=
  fun _ clear => hoistsFrom_source (k := 0) legible clear

/-! ## Functions -/

theorem even_paramsFrom {fuel : Nat} {names : List String} (h : paramsFrom fuel c = .ok (names, d))
    (legible : names.all inertName = true) : c.Even d := by
  induction fuel generalizing c names with
  | zero =>
    cases h
    exact .refl _
  | succ fuel ih =>
    rw [paramsFrom] at h
    dsimp only at h
    refine (even_skipGap c).trans ?_
    split at h
    · cases h
      exact .refl _
    · split at h
      · cases h
      · next name e named =>
        split at h
        · cases h
          rw [List.all_cons, Bool.and_eq_true] at legible
          exact (even_bindingName named legible.1).trans (even_skipGap e)
        · next f comma =>
          cases more : paramsFrom fuel f with
          | error e => rw [more] at h; cases h
          | ok r =>
            rw [more] at h
            cases h
            rw [List.all_cons, Bool.and_eq_true] at legible
            have passed := (even_bindingName named legible.1).trans (even_skipGap e)
            exact (passed.trans (even_consume? (by decide) comma)).trans (ih more legible.2)

theorem even_params {names : List String} (h : params c = .ok (names, d))
    (legible : names.all inertName = true) : c.Even d := even_paramsFrom h legible

/-- The scan passes over the body of a function and over the brace that ends a block. -/
theorem scanned_functionBody {term : Terminator} {body : Body} (h : functionBody term c = .ok (body, d))
    (legible : body.legible = true) :
    (∃ text pos, body = .script text pos true ∧ c.Closes d) ∨
      ∃ text pos, body = .script text pos false ∧ c.Skips d := by
  unfold functionBody at h
  dsimp only at h
  split at h
  · cases read : block (skipGap c) with
    | error e => rw [read] at h; cases h
    | ok r =>
      rw [read] at h
      cases h
      exact .inl ⟨_, _, rfl, (even_skipGap c).closes (closes_block read legible)⟩
  · split at h
    · cases h
    · next text trimmed =>
      cases h
      refine .inr ⟨_, _, rfl, (even_skipGap c).then (skips_expressionSource ?_)⟩
      exact Text.sourced_of_trimLine legible

theorem skips_functionBody {term : Terminator} {body : Body} (h : functionBody term c = .ok (body, d))
    (legible : body.legible = true) : c.Skips d := by
  obtain ⟨_, _, -, closes⟩ | ⟨_, _, -, skips⟩ := scanned_functionBody h legible
  · exact closes.skips
  · exact skips

theorem skips_functionLiteral {term : Terminator} {fn : Function} (h : functionLiteral term c = .ok (fn, d))
    (legible : fn.legible = true) : c.Skips d := by
  unfold functionLiteral at h
  cases given : params c with
  | error e => rw [given] at h; cases h
  | ok r =>
    rw [given] at h
    dsimp only [bind, Except.bind] at h
    split at h
    · cases h
    · next e arrow =>
      cases read : functionBody term e with
      | error err => rw [read] at h; cases h
      | ok b =>
        rw [read] at h
        cases h
        rw [Function.legible, Bool.and_eq_true, Bool.and_eq_true] at legible
        obtain ⟨⟨-, params⟩, body⟩ := legible
        have passed := (even_params given params).trans (even_skipGap r.2)
        exact (passed.trans (even_consume? (by decide) arrow)).then (skips_functionBody read body)

end Cursor

end Gapscript
