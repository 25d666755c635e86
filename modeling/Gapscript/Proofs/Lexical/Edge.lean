import Gapscript.Proofs.Lexical.Boundary
import Gapscript.Proofs.Lexical.Comment
import Gapscript.Expr.Parser

/-!
# Tokens in front of an edge

No token goes on over white space, an opening brace or a slash, unless it begins there. So what is read at
a text is read there as well when such a character stands behind it (`bindingName_onto`, `number_onto`,
`binaryOperator_onto`).
-/

namespace Gapscript

/-- The cursor with more text behind its own. -/
def Cursor.onto (X : Text) (c : Cursor) : Cursor := ⟨c.rest ++ X, c.pos⟩

namespace Lexical

open Cursor

/-- The characters that end every token in front of them: white space, the opening brace and the slash. -/
def edges : List Char := [' ', '\t', '\r', '\n', '(', ')', '\x7b', '/']

/-- The text begins with a character that ends a token. -/
def Edged (X : Text) : Prop := ∃ x ∈ edges, ∃ t, X = x :: t

variable {X : Text} {x : Char} {v : Text} {p : Position} {term : Terminator}

theorem edged_of_layout (layout : isLayout x = true) (t : Text) : Edged (x :: t) := by
  refine ⟨x, ?_, t, rfl⟩
  unfold isLayout at layout
  simp only [Bool.or_eq_true, beq_iff_eq] at layout
  simp only [edges, List.mem_cons]
  tauto

theorem Edged.head? (edge : Edged X) {P : Char → Prop} (all : ∀ y ∈ edges, P y) : ∀ y ∈ X.head?, P y := by
  obtain ⟨y, inside, t, rfl⟩ := edge
  rintro _ ⟨⟩
  exact all y inside

theorem Edged.ends (edge : Edged X) : endsQuote X = true := by
  obtain ⟨y, inside, t, rfl⟩ := edge
  have all : ∀ y ∈ edges, (isLayout y || Terminator.isNameStop y) = true := by decide
  exact all y inside

theorem Edged.nonempty (edge : Edged X) : X ≠ [] := by
  obtain ⟨y, -, t, rfl⟩ := edge
  exact List.cons_ne_nil y t

/-! ## Cursors -/

theorem skip_onto {n : Nat} {c : Cursor} (within : n ≤ c.rest.length) :
    (c.onto X).skip n = (c.skip n).onto X := by
  rw [skip_eq, skip_eq, onto, onto]
  dsimp only
  rw [List.drop_append_of_le_length within, List.take_append_of_le_length within]

/-! ## Words and signs -/

/-- Tokens have edges at most in their first character. -/
theorem isPrefixOf_onto (edge : Edged X) {tok : List Char} (plain : ∀ y ∈ tok.tail, y ∉ edges) :
    tok.isPrefixOf (x :: v ++ X) = tok.isPrefixOf (x :: v) := by
  have inner {ys : List Char} (plain : ∀ y ∈ ys, y ∉ edges) (v : Text) :
      ys.isPrefixOf (v ++ X) = ys.isPrefixOf v := by
    induction ys generalizing v with
    | nil => rfl
    | cons y ys ih =>
      obtain ⟨here, later⟩ := List.forall_mem_cons.mp plain
      cases v with
      | nil =>
        obtain ⟨e, inside, t, rfl⟩ := edge
        have apart : (y == e) = false := beq_eq_false_iff_ne.mpr fun same => here (same ▸ inside)
        exact (congrArg (· && ys.isPrefixOf t) apart).trans (Bool.false_and _)
      | cons z v => rw [List.cons_append, List.isPrefixOf, List.isPrefixOf, ih later]
  cases tok with
  | nil => rfl
  | cons y ys => exact congrArg ((y == x) && ·) (inner plain v)

theorem startsWith_onto (edge : Edged X) {s : String} (plain : ∀ y ∈ s.toList.tail, y ∉ edges) :
    startsWith (onto X ⟨x :: v, p⟩) s = startsWith ⟨x :: v, p⟩ s :=
  isPrefixOf_onto edge plain

theorem consume?_onto (edge : Edged X) {s : String} (plain : ∀ y ∈ s.toList.tail, y ∉ edges) :
    consume? (onto X ⟨x :: v, p⟩) s = (consume? ⟨x :: v, p⟩ s).map (onto X) := by
  unfold consume?
  rw [startsWith_onto edge plain]
  split
  · next starts =>
    have long := (List.isPrefixOf_iff_prefix.mp starts).length_le
    rw [String.length_toList] at long
    rw [skip_onto long]
    rfl
  · rfl

theorem startsWord_onto (edge : Edged X) (t : Text) : startsWord (t ++ X) = startsWord t := by
  cases t with
  | nil =>
    obtain ⟨y, inside, t, rfl⟩ := edge
    have all : ∀ y ∈ edges, isWordChar y = false := by decide
    exact all y inside
  | cons y t => rfl

theorem keyword?_onto (edge : Edged X) {word : String} (plain : ∀ y ∈ word.toList.tail, y ∉ edges) :
    keyword? word (onto X ⟨x :: v, p⟩) = (keyword? word ⟨x :: v, p⟩).map (onto X) := by
  unfold keyword?
  rw [consume?_onto edge plain]
  cases consume? ⟨x :: v, p⟩ word with
  | none => rfl
  | some d =>
    have same : startsWord (onto X d).rest = startsWord d.rest := startsWord_onto edge d.rest
    rw [Option.map_some]
    dsimp only
    rw [same]
    split
    · rfl
    · rfl

/-! ## Names -/

theorem wordLength_onto (edge : Edged X) (charwise : term.Charwise)
    (stops : ∀ y ∈ edges, isLayout y = true ∨ term [y] = true) (t : Text) (nonempty : t ≠ []) (first : Bool) :
    wordLength term first (t ++ X) = wordLength term first t := by
  have behind (t : Text) : wordLength term false (t ++ X) = wordLength term false t := by
    induction t with
    | nil =>
      obtain ⟨y, inside, u, rfl⟩ := edge
      rw [List.nil_append, wordLength, wordLength]
      rcases stops y inside with layout | stop
      · rw [if_pos layout]
      · rw [charwise y u [], stop]
        split
        · rfl
        · rfl
    | cons c t ih => rw [List.cons_append, wordLength, wordLength, charwise c (t ++ X) t, ih]
  cases t with
  | nil => exact absurd rfl nonempty
  | cons c t => rw [List.cons_append, wordLength, wordLength, charwise c (t ++ X) t, behind]

theorem charwise_name : Terminator.name.Charwise := fun _ _ _ => rfl

theorem wordLength_le (term : Terminator) (first : Bool) (t : Text) : wordLength term first t ≤ t.length := by
  induction t generalizing first with
  | nil => exact Nat.le_refl 0
  | cons c t ih =>
    rw [wordLength]
    split
    · exact Nat.zero_le _
    · split
      · exact Nat.zero_le _
      · exact Nat.succ_le_succ (ih false)

theorem identifier_eq (term : Terminator) (c : Cursor) : identifier term c =
    if wordLength term true c.rest = 0 then .error ⟨.emptyIdentifier, "", some c.pos⟩
    else .ok (String.ofList (c.rest.take (wordLength term true c.rest)), c.skip (wordLength term true c.rest)) := by
  unfold identifier
  split
  · next none => rw [if_pos none]
  · next some => rw [if_neg some]

theorem identifier_onto (edge : Edged X) :
    identifier Terminator.name (onto X ⟨x :: v, p⟩) =
      (identifier Terminator.name ⟨x :: v, p⟩).map fun r => (r.1, r.2.onto X) := by
  have length := wordLength_onto edge charwise_name (by decide) (x :: v) (List.cons_ne_nil x v) true
  have long := wordLength_le Terminator.name true (x :: v)
  have text : (onto X ⟨x :: v, p⟩).rest = x :: v ++ X := rfl
  rw [identifier_eq, identifier_eq, text, length, List.take_append_of_le_length long, skip_onto (c := ⟨x :: v, p⟩) long]
  split
  · rfl
  · rfl

theorem bindingName_onto (edge : Edged X) :
    bindingName (onto X ⟨x :: v, p⟩) = (bindingName ⟨x :: v, p⟩).map fun r => (r.1, r.2.onto X) := by
  have named := identifier_onto (v := v) (x := x) (p := p) edge
  unfold bindingName
  rw [named]
  change (if _ then _ else _) = Except.map _ (if _ then _ else _)
  split
  · rfl
  · rfl

/-- A word that ends within the text ends there as well when the text does. -/
theorem wordLength_within (charwise : term.Charwise) {u : Text} {first : Bool}
    (within : wordLength term first (u ++ X) ≤ u.length) :
    wordLength term first u = wordLength term first (u ++ X) := by
  induction u generalizing first with
  | nil => exact (Nat.le_zero.mp within).symm
  | cons c u ih =>
    rw [List.cons_append, wordLength] at within ⊢
    rw [wordLength, charwise c (u ++ X) u] at *
    split
    · rfl
    · next solid =>
      rw [if_neg solid] at within
      split
      · rfl
      · next goes =>
        rw [if_neg goes, List.length_cons, Nat.add_le_add_iff_right] at within
        rw [ih within]

/-! ## Numbers and values -/

theorem digits_onto (edge : Edged X) (t : Text) : digits (t ++ X) = digits t := by
  unfold digits
  induction t with
  | nil =>
    obtain ⟨y, inside, u, rfl⟩ := edge
    have all : ∀ y ∈ edges, ¬y.isDigit = true := by decide
    rw [List.nil_append, List.takeWhile_cons_of_neg (all y inside), List.takeWhile_nil]
  | cons c t ih => rw [List.cons_append, List.takeWhile_cons, List.takeWhile_cons, ih]

theorem digits_le (t : Text) : (digits t).length ≤ t.length := (List.takeWhile_prefix _).length_le

theorem fractionLength_le (t : Text) : fractionLength t ≤ t.length := by
  unfold fractionLength
  split
  · next t =>
    have digits := digits_le t
    split
    · exact Nat.zero_le _
    · exact Nat.succ_le_succ digits
  · exact Nat.zero_le _

theorem fractionLength_onto (edge : Edged X) (t : Text) : fractionLength (t ++ X) = fractionLength t := by
  cases t with
  | nil =>
    obtain ⟨y, inside, u, rfl⟩ := edge
    have all : ∀ y ∈ edges, y ≠ '.' := by decide
    unfold fractionLength
    rw [List.nil_append]
    split
    · next same => exact absurd (List.cons.inj same).1 (all y inside)
    · rfl
  | cons c t =>
    by_cases point : c = '.'
    · rw [point, List.cons_append, fractionLength, fractionLength, digits_onto edge]
    · have none (t : Text) : fractionLength (c :: t) = 0 := by
        unfold fractionLength
        split
        · next same => exact absurd (List.cons.inj same).1 point
        · rfl
      rw [List.cons_append, none, none]

/-- The length of the sign of an exponent. -/
def signLength : Text → Nat
  | '+' :: _ | '-' :: _ => 1
  | _ => 0

theorem signLength_le (t : Text) : signLength t ≤ t.length := by
  unfold signLength
  split
  · exact Nat.succ_pos _
  · exact Nat.succ_pos _
  · exact Nat.zero_le _

theorem signLength_onto (edge : Edged X) (t : Text) : signLength (t ++ X) = signLength t := by
  cases t with
  | nil =>
    obtain ⟨y, inside, u, rfl⟩ := edge
    have all : ∀ y ∈ edges, y ≠ '+' ∧ y ≠ '-' := by decide
    unfold signLength
    rw [List.nil_append]
    split
    · next same => exact absurd (List.cons.inj same).1 (all y inside).1
    · next same => exact absurd (List.cons.inj same).1 (all y inside).2
    · rfl
  | cons c t =>
    rw [List.cons_append]
    unfold signLength
    split
    · next same =>
      cases same
      rfl
    · next same =>
      cases same
      rfl
    · next plus minus =>
      split
      · next same =>
        cases same
        exact absurd rfl (plus _)
      · next same =>
        cases same
        exact absurd rfl (minus _)
      · rfl

/-- The length of some digits with a mark and a sign in front of them. -/
def markedLength (sign : Nat) : Text → Nat
  | [] => 0
  | ds => ds.length + sign + 1

theorem exponentLength_cons (m : Char) (t : Text) : exponentLength (m :: t) =
    if m == 'e' || m == 'E' then
      if digits (t.drop (signLength t)) = [] then 0
      else (digits (t.drop (signLength t))).length + signLength t + 1
    else 0 := by
  unfold exponentLength
  split
  · next m' t' same =>
    cases same
    split
    · change markedLength (signLength t) (digits (t.drop (signLength t))) = _
      unfold markedLength
      split
      · next none => rw [if_pos none]
      · next some => rw [if_neg some]
    · rfl
  · next same => cases same

theorem exponentLength_le (t : Text) : exponentLength t ≤ t.length := by
  cases t with
  | nil => exact Nat.le_refl 0
  | cons m t =>
    have sign := signLength_le t
    have digits := digits_le (t.drop (signLength t))
    rw [List.length_drop] at digits
    rw [exponentLength_cons, List.length_cons]
    split
    · split
      · exact Nat.zero_le _
      · omega
    · exact Nat.zero_le _

theorem exponentLength_onto (edge : Edged X) (t : Text) : exponentLength (t ++ X) = exponentLength t := by
  cases t with
  | nil =>
    obtain ⟨y, inside, u, rfl⟩ := edge
    have all : ∀ y ∈ edges, (y == 'e' || y == 'E') = false := by decide
    rw [List.nil_append, exponentLength_cons, all y inside]
    rfl
  | cons m t =>
    rw [List.cons_append, exponentLength_cons, exponentLength_cons, signLength_onto edge,
      List.drop_append_of_le_length (signLength_le t), digits_onto edge]

theorem numeral_onto (edge : Edged X) (t : Text) : numeral (t ++ X) = numeral t := by
  have whole := digits_le t
  have fraction := fractionLength_le (t.drop (digits t).length)
  have exponent := exponentLength_le (t.drop ((digits t).length + fractionLength (t.drop (digits t).length)))
  rw [List.length_drop] at fraction exponent
  have last (u : Text) : (u ++ X).head? = some 'n' ↔ u.head? = some 'n' := by
    cases u with
    | nil =>
      obtain ⟨y, inside, t, rfl⟩ := edge
      have all : ∀ y ∈ edges, y ≠ 'n' := by decide
      exact ⟨fun same => absurd (Option.some.inj same) (all y inside), nofun⟩
    | cons => rfl
  unfold numeral
  dsimp only
  rw [digits_onto edge, List.drop_append_of_le_length whole, fractionLength_onto edge,
    List.drop_append_of_le_length (by omega), exponentLength_onto edge, List.take_append_of_le_length whole,
    List.take_append_of_le_length (by omega)]
  simp only [last]

theorem numeral_le {t : Text} {value : Value} {n : Nat} (read : numeral t = .ok (value, n)) : n ≤ t.length := by
  have whole := digits_le t
  have fraction := fractionLength_le (t.drop (digits t).length)
  have exponent := exponentLength_le (t.drop ((digits t).length + fractionLength (t.drop (digits t).length)))
  rw [List.length_drop] at fraction exponent
  unfold numeral at read
  dsimp only at read
  split at read
  · cases read
  · split at read
    · next big =>
      cases read
      have : (t.drop (digits t).length).length ≠ 0 := fun none => by
        rw [List.length_eq_zero_iff.mp none] at big
        cases big.2
      rw [List.length_drop] at this
      omega
    · split at read
      · cases read
        omega
      · cases read

theorem number_onto (edge : Edged X) : number (onto X ⟨x :: v, p⟩) =
    (number ⟨x :: v, p⟩).map fun r => (r.1, r.2.onto X) := by
  unfold number
  rw [show (onto X ⟨x :: v, p⟩).rest = x :: v ++ X from rfl, numeral_onto edge]
  dsimp only
  split
  · rfl
  · next value n read =>
    rw [skip_onto (numeral_le read)]
    have same : startsWord (onto X (Cursor.skip n ⟨x :: v, p⟩)).rest =
      startsWord (Cursor.skip n ⟨x :: v, p⟩).rest := startsWord_onto edge _
    rw [same]
    split
    · rfl
    · rfl

theorem firstWord?_onto (edge : Edged X) {α : Type} {words : List (String × α)}
    (plain : ∀ w ∈ words, ∀ y ∈ w.1.toList.tail, y ∉ edges) :
    firstWord? (onto X ⟨x :: v, p⟩) words = (firstWord? ⟨x :: v, p⟩ words).map fun r => (r.1, r.2.onto X) := by
  induction words with
  | nil => rfl
  | cons w words ih =>
    obtain ⟨here, later⟩ := List.forall_mem_cons.mp plain
    obtain ⟨word, a⟩ := w
    rw [firstWord?, firstWord?, keyword?_onto edge here, ih later]
    cases keyword? word ⟨x :: v, p⟩ with
    | none => rfl
    | some d => rfl

/-! ## Operators -/

theorem token_plain (op : BinaryOp) : ∀ y ∈ op.token.toList.tail, y ∉ edges := by
  cases op <;> decide

theorem binaryOperator_onto (edge : Edged X) : binaryOperator (onto X ⟨x :: v, p⟩) =
    (binaryOperator ⟨x :: v, p⟩).map fun r => (r.1, r.2.onto X) := by
  have same : (fun op : BinaryOp => startsWith (onto X ⟨x :: v, p⟩) op.token) =
      fun op => startsWith ⟨x :: v, p⟩ op.token := funext fun op => startsWith_onto edge (token_plain op)
  unfold binaryOperator
  rw [same]
  split
  · rfl
  · next op found =>
    have starts : startsWith ⟨x :: v, p⟩ op.token = true := by simpa using List.find?_some found
    have long := (List.isPrefixOf_iff_prefix.mp starts).length_le
    rw [String.length_toList] at long
    dsimp only
    rw [skip_onto long]
    have equals : startsWith (onto X (Cursor.skip op.token.length ⟨x :: v, p⟩)) "=" =
        startsWith (Cursor.skip op.token.length ⟨x :: v, p⟩) "=" := by
      generalize Cursor.skip op.token.length ⟨x :: v, p⟩ = d
      obtain ⟨t, q⟩ := d
      cases t with
      | nil =>
        obtain ⟨y, inside, u, rfl⟩ := edge
        have all : ∀ y ∈ edges, ('=' == y) = false := by decide
        exact congrArg (· && List.isPrefixOf [] u) (all y inside)
      | cons y t => exact startsWith_onto edge (by decide)
    rw [equals]
    split
    · rfl
    · rfl

end Lexical

end Gapscript
