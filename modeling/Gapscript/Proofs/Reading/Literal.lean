import Gapscript.Expr.Literal

/-!
# Literals read back

The decimal digits of a number with an `n` after them read as that big integer, and a text in quotes
with a backslash before every quote and every backslash reads as that text, as long as what follows
cannot continue the literal.
-/

namespace Gapscript.Lexical

/-! ## Cursors over a known beginning -/

theorem skip_append (s t : Text) (p : Position) :
    Cursor.skip s.length ⟨s ++ t, p⟩ = ⟨t, p.afterText s⟩ := by
  simp [Cursor.skip_eq]

theorem startsWith_append (s : String) (t : Text) (p : Position) :
    Cursor.startsWith ⟨s.toList ++ t, p⟩ s = true := by
  simp [Cursor.startsWith, List.isPrefixOf_iff_prefix]

theorem consume?_append (s : String) (t : Text) (p : Position) :
    Cursor.consume? ⟨s.toList ++ t, p⟩ s = some ⟨t, p.afterText s.toList⟩ := by
  rw [Cursor.consume?, if_pos (startsWith_append s t p), ← String.length_toList, skip_append]

/-- A token that begins with another character is not there. -/
theorem consume?_eq_none {s : String} {x y : Char} {xs ys : Text} (hs : s.toList = x :: xs)
    (hxy : x ≠ y) (p : Position) : Cursor.consume? ⟨y :: ys, p⟩ s = none := by
  simp [Cursor.consume?, Cursor.startsWith, hs, List.isPrefixOf, hxy]

theorem keyword?_append (word : String) {t : Text} (ht : startsWord t = false) (p : Position) :
    keyword? word ⟨word.toList ++ t, p⟩ = some ⟨t, p.afterText word.toList⟩ := by
  simp [keyword?, consume?_append, ht]

theorem keyword?_eq_none (word : String) {x y : Char} {xs ys : Text} (hw : word.toList = x :: xs)
    (hxy : x ≠ y) (p : Position) : keyword? word ⟨y :: ys, p⟩ = none := by
  simp [keyword?, consume?_eq_none hw hxy p]

/-- The characters that words for values begin with. -/
def wordStarts : List Char := ['t', 'f', 'n', 'u', 'I', 'N']

theorem firstWord?_eq_none {x : Char} {xs : Text} (hx : x ∉ wordStarts) (p : Position) :
    firstWord? ⟨x :: xs, p⟩ literalWords = none := by
  simp only [wordStarts, List.mem_cons, List.not_mem_nil, or_false, not_or] at hx
  obtain ⟨ht, hf, hn, hu, hi, hN⟩ := hx
  simp only [literalWords, firstWord?]
  rw [keyword?_eq_none "true" rfl (Ne.symm ht),
    keyword?_eq_none "false" rfl (Ne.symm hf),
    keyword?_eq_none "null" rfl (Ne.symm hn),
    keyword?_eq_none "undefined" rfl (Ne.symm hu),
    keyword?_eq_none "Infinity" rfl (Ne.symm hi),
    keyword?_eq_none "NaN" rfl (Ne.symm hN)]

/-- Another character begins no literal. -/
theorem literal_eq_error {x : Char} (quote : isQuote x = false) (digit : x.isDigit = false) (start : x ∉ wordStarts)
    (t : Text) (p : Position) : literal ⟨x :: t, p⟩ = .error (noMatch ⟨x :: t, p⟩ "expected a literal") := by
  have none : numeral (x :: t) = .error "expected a literal" := by
    have whole : digits (x :: t) = [] := List.takeWhile_cons_of_neg (by rw [digit]; exact Bool.false_ne_true)
    rw [numeral, whole]
    rfl
  rw [literal, firstWord?_eq_none start]
  dsimp only
  rw [List.head?_cons, Option.any_some, quote, if_neg Bool.false_ne_true, number, none]

theorem isQuote_cases {c : Char} (h : isQuote c = true) : c = '"' ∨ c = '\'' := by
  simpa [isQuote] using h

/-! ## Big integers -/

theorem ofDigits_toDigits (n : Nat) : Number.ofDigits (Nat.toDigits 10 n) = n := by
  have same : Number.ofDigits = fun ds => Nat.ofDigitChars 10 ds 0 := by
    funext ds
    simp only [Number.ofDigits, Nat.ofDigitChars, Nat.mul_comm]
    rfl
  rw [same]
  exact Nat.ofDigitChars_toDigits (by decide) (by decide)

theorem isDigit_of_mem_toDigits {n : Nat} {c : Char} (h : c ∈ Nat.toDigits 10 n) : c.isDigit = true :=
  Nat.isDigit_of_mem_toDigits (by decide) (by decide) h

theorem digits_append {ds t : Text} (hd : ∀ c ∈ ds, c.isDigit = true) (ht : digits t = []) :
    digits (ds ++ t) = ds := by
  rw [digits] at ht ⊢
  rw [List.takeWhile_append_of_pos hd, ht, List.append_nil]

theorem numeral_bigint (n : Nat) (t : Text) :
    numeral (Nat.toDigits 10 n ++ 'n' :: t) =
      .ok (.bigint n, (Nat.toDigits 10 n).length + 1) := by
  have spelled : digits (Nat.toDigits 10 n ++ 'n' :: t) = Nat.toDigits 10 n :=
    digits_append (fun _ => isDigit_of_mem_toDigits) rfl
  have some_digit : (Nat.toDigits 10 n).length ≠ 0 := by simp
  have fraction : fractionLength ('n' :: t) = 0 := rfl
  have exponent : exponentLength ('n' :: t) = 0 := rfl
  simp [numeral, spelled, some_digit, fraction, exponent, ofDigits_toDigits]

/-- The digits of a number and an `n` read as that big integer. -/
theorem literal_bigint (n : Nat) {t : Text} (ht : startsWord t = false) (p : Position) :
    literal ⟨Nat.toDigits 10 n ++ 'n' :: t, p⟩ =
      .ok (.bigint n, ⟨t, p.afterText (Nat.toDigits 10 n ++ ['n'])⟩) := by
  obtain ⟨x, xs, hx⟩ := List.exists_cons_of_ne_nil (Nat.toDigits_ne_nil (n := n) (b := 10))
  have digit : x.isDigit = true := isDigit_of_mem_toDigits (n := n) (by rw [hx]; exact List.mem_cons_self)
  have noWord : x ∉ wordStarts := by
    intro hmem
    simp only [wordStarts, List.mem_cons, List.not_mem_nil, or_false] at hmem
    rcases hmem with rfl | rfl | rfl | rfl | rfl | rfl <;> exact absurd digit (by decide)
  have noQuote : isQuote x = false := by
    refine Bool.eq_false_iff.2 fun hq => ?_
    rcases isQuote_cases hq with rfl | rfl <;> exact absurd digit (by decide)
  have read : number ⟨Nat.toDigits 10 n ++ 'n' :: t, p⟩ =
      .ok (.bigint n, ⟨t, p.afterText (Nat.toDigits 10 n ++ ['n'])⟩) := by
    have passed := skip_append (Nat.toDigits 10 n ++ ['n']) t p
    rw [List.append_assoc, List.length_append] at passed
    simp only [number, numeral_bigint]
    erw [passed]
    simp [ht]
  rw [literal, hx, List.cons_append, firstWord?_eq_none noWord]
  simp only [List.head?_cons, Option.any_some, noQuote]
  rw [← List.cons_append, ← hx]
  exact read

/-! ## Quoted strings -/

/-- A text with a backslash before every quote and every backslash. -/
def shielded : Text → Text
  | [] => []
  | c :: cs => if isQuote c || c == '\\' then '\\' :: c :: shielded cs else c :: shielded cs

/-- A shielded text that is not empty does not begin with a quote. -/
theorem shielded_cons (c : Char) (cs : Text) :
    ∃ x xs, shielded (c :: cs) = x :: xs ∧ isQuote x = false := by
  rw [shielded]
  split
  · exact ⟨_, _, rfl, by decide⟩
  · next hc =>
    simp only [Bool.or_eq_true, not_or] at hc
    exact ⟨_, _, rfl, Bool.eq_false_iff.2 hc.1⟩

/-- A shielded text is read up to the run of quotes that closes it. -/
theorem closeQuote_shielded {q : Char} (hq : isQuote q = true) (qs s t : Text) :
    closeQuote (q :: qs) (shielded s ++ q :: qs ++ t) =
      some (s, (shielded s).length + (q :: qs).length) := by
  have notSlash : q ≠ '\\' := by
    rintro rfl
    exact absurd hq (by decide)
  induction s with
  | nil =>
    have found : (q :: qs).isPrefixOf (q :: (qs ++ t)) = true := by
      rw [List.isPrefixOf_iff_prefix, ← List.cons_append]
      exact List.prefix_append _ _
    rw [shielded, List.nil_append, List.cons_append,
      closeQuote.eq_3 _ _ _ (by intro x cs hslash; exact absurd hslash notSlash), if_pos found,
      List.length_nil, Nat.zero_add]
  | cons c cs ih =>
    rw [shielded]
    split
    · rw [List.cons_append, List.cons_append, List.cons_append, List.cons_append, closeQuote, ih]
      simp only [Option.map_some, List.length_cons]
      congr 2
      omega
    · next hc =>
      simp only [Bool.or_eq_true, not_or, beq_iff_eq] at hc
      have other : (q :: qs).isPrefixOf (c :: (shielded cs ++ q :: qs ++ t)) = false := by
        have differ : q ≠ c := by
          rintro rfl
          exact hc.1 hq
        simp [List.isPrefixOf, differ]
      rw [List.cons_append, List.cons_append,
        closeQuote.eq_3 _ _ _ (by intro x ds hslash; exact absurd hslash hc.2), other, ih]
      simp only [Bool.false_eq_true, if_false, Option.map_some, List.length_cons]
      congr 2
      omega

/-- A text in double quotes. -/
def inQuotes (s : Text) : Text := '"' :: (shielded s ++ ['"'])

/-- A string by the run of quotes that opens it. -/
theorem quoted?_of_mark {t : Text} {q : Char} {qs : Text} (h : t.takeWhile isQuote = q :: qs) :
    quoted? t =
      if isEmptyPair (q :: qs) && endsQuote (t.drop (q :: qs).length) then some ([], (q :: qs).length)
      else (closeQuote (q :: qs) (t.drop (q :: qs).length)).map fun (s, n) => (s, (q :: qs).length + n) := by
  rw [quoted?, h]

/-- Two quotes in a row are an empty string if nothing that could be text follows. -/
theorem quoted?_empty {t : Text} (ht : endsQuote t = true) :
    quoted? (inQuotes [] ++ t) = some ([], (inQuotes []).length) := by
  have noQuote : t.takeWhile isQuote = [] := by
    cases t with
    | nil => rfl
    | cons c cs =>
      have stops : isLayout c = true ∨ Terminator.isNameStop c = true := by simpa [endsQuote] using ht
      have differ : isQuote c = false := by
        refine Bool.eq_false_iff.2 fun hq => ?_
        rcases isQuote_cases hq with rfl | rfl <;> exact absurd stops (by decide)
      simp [differ]
  have mark : (inQuotes [] ++ t).takeWhile isQuote = ['"', '"'] := by
    simp [inQuotes, shielded, isQuote, noQuote]
  have pair : isEmptyPair ['"', '"'] = true := by decide
  have rest : (inQuotes [] ++ t).drop ['"', '"'].length = t := rfl
  rw [quoted?_of_mark mark, rest, pair, ht]
  rfl

theorem quoted?_inQuotes (s : Text) {t : Text} (ht : endsQuote t = true) :
    quoted? (inQuotes s ++ t) = some (s, (inQuotes s).length) := by
  cases s with
  | nil => exact quoted?_empty ht
  | cons c cs =>
    have first : (shielded (c :: cs) ++ '"' :: t).takeWhile isQuote = [] := by
      obtain ⟨x, xs, hs, hx⟩ := shielded_cons c cs
      simp [hs, hx]
    have mark : (inQuotes (c :: cs) ++ t).takeWhile isQuote = ['"'] := by
      have quote : isQuote '"' = true := by decide
      simp [inQuotes, quote, first]
    have body : (inQuotes (c :: cs) ++ t).drop ['"'].length = shielded (c :: cs) ++ ['"'] ++ t := rfl
    have single : isEmptyPair ['"'] = false := by decide
    have closed := closeQuote_shielded (q := '"') (by decide) [] (c :: cs) t
    have length : (inQuotes (c :: cs)).length = ['"'].length + ((shielded (c :: cs)).length + ['"'].length) := by
      simp only [inQuotes, List.length_cons, List.length_append, List.length_nil]
      omega
    rw [quoted?_of_mark mark, body, single, closed, length]
    rfl

/-- A text in quotes reads as a string. -/
theorem literal_inQuotes (s : Text) {t : Text} (ht : endsQuote t = true) (p : Position) :
    literal ⟨inQuotes s ++ t, p⟩ = .ok (.string (String.ofList s), ⟨t, p.afterText (inQuotes s)⟩) := by
  have noWord : firstWord? ⟨inQuotes s ++ t, p⟩ literalWords = none :=
    firstWord?_eq_none (by decide) p
  have quote : (inQuotes s ++ t).head?.any isQuote = true := rfl
  rw [literal, noWord]
  simp only [quote, if_true, quotedString, quoted?_inQuotes s ht]
  rw [skip_append]
  rfl

/-! ## Words -/

/-- The word of a truth value. -/
def booleanWord (b : Bool) : String := if b then "true" else "false"

theorem literal_boolean (b : Bool) {t : Text} (ht : startsWord t = false) (p : Position) :
    literal ⟨(booleanWord b).toList ++ t, p⟩ =
      .ok (.boolean b, ⟨t, p.afterText (booleanWord b).toList⟩) := by
  cases b with
  | true =>
    have found := keyword?_append "true" ht p
    simp only [literal, literalWords, firstWord?, booleanWord, if_true, found]
  | false =>
    have found := keyword?_append "false" ht p
    have other : keyword? "true" ⟨"false".toList ++ t, p⟩ = none :=
      keyword?_eq_none "true" (x := 't') (y := 'f') rfl (by decide) p
    simp only [literal, literalWords, firstWord?, booleanWord, Bool.false_eq_true, if_false, other, found]

theorem literal_null {t : Text} (ht : startsWord t = false) (p : Position) :
    literal ⟨"null".toList ++ t, p⟩ = .ok (.null, ⟨t, p.afterText "null".toList⟩) := by
  have found := keyword?_append "null" ht p
  have noTrue : keyword? "true" ⟨"null".toList ++ t, p⟩ = none :=
    keyword?_eq_none "true" (x := 't') (y := 'n') rfl (by decide) p
  have noFalse : keyword? "false" ⟨"null".toList ++ t, p⟩ = none :=
    keyword?_eq_none "false" (x := 'f') (y := 'n') rfl (by decide) p
  simp only [literal, literalWords, firstWord?, noTrue, noFalse, found]

theorem literal_undefined {t : Text} (ht : startsWord t = false) (p : Position) :
    literal ⟨"undefined".toList ++ t, p⟩ = .ok (.undefined, ⟨t, p.afterText "undefined".toList⟩) := by
  have found := keyword?_append "undefined" ht p
  have noTrue : keyword? "true" ⟨"undefined".toList ++ t, p⟩ = none :=
    keyword?_eq_none "true" (x := 't') (y := 'u') rfl (by decide) p
  have noFalse : keyword? "false" ⟨"undefined".toList ++ t, p⟩ = none :=
    keyword?_eq_none "false" (x := 'f') (y := 'u') rfl (by decide) p
  have noNull : keyword? "null" ⟨"undefined".toList ++ t, p⟩ = none :=
    keyword?_eq_none "null" (x := 'n') (y := 'u') rfl (by decide) p
  simp only [literal, literalWords, firstWord?, noTrue, noFalse, noNull, found]

end Gapscript.Lexical
