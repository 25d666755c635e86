import Gapscript.Proofs.Number.Numeral

/-!
# Which texts spell a number

A number is spelled by a sign and a proper numeral, its digits grouped by underscores, or by one of the words
for infinity and NaN (`Spells`). The reader of numbers accepts exactly these texts, with the numbers they
spell (`read?_eq_some_iff`): underscores are read over wherever they stand, and looked at afterwards.
-/

namespace Gapscript.Number

/-! ## Spelling -/

/-- A text without the underscores that group its digits. -/
def ungrouped (t : List Char) : List Char := t.filter (· ≠ '_')

/-- Every underscore has a digit in front of it and one behind it. A digit that stands in front of the text
is said to be there by `start`. -/
def Grouped (hexadecimal start : Bool) (t : List Char) : Prop :=
  ∀ a b, t = a ++ '_' :: b →
    (a.getLast?.elim (start = true) (IsDigit (baseOf hexadecimal)) ∧ ∃ c ∈ b.head?, IsDigit (baseOf hexadecimal) c)

/-- A text spells a number. The letters of words, of digits, of the base and of exponents may be of either
case. -/
inductive Spells : List Char → Float → Prop
  | infinity (sign : Sign) {w : List Char}
      (word : w.map foldCase = "inf".toList ∨ w.map foldCase = "infinity".toList) :
      Spells (sign.text ++ w) (infinity sign.negative)
  | nan {w : List Char} (word : w.map foldCase = "nan".toList) : Spells w nan
  | decimal (sign : Sign) {t : List Char} {m : Numeral} {x : Float} (proper : m.Proper false)
      (text : ungrouped t = m.text) (grouped : Grouped false false t) (value : m.value? false = some x) :
      Spells (sign.text ++ t) (withSign sign.negative x)
  | hexadecimal (sign : Sign) {mark : Char} {t : List Char} {m : Numeral} {x : Float}
      (base : foldCase mark = 'x') (proper : m.Proper true) (text : ungrouped t = m.text)
      (grouped : Grouped true true t) (value : m.value? true = some x) :
      Spells (sign.text ++ '0' :: mark :: t) (withSign sign.negative x)

/-! ## Grouping -/

theorem not_mem_ungrouped (t : List Char) : '_' ∉ ungrouped t := by
  simp [ungrouped]

theorem ungrouped_cons {c : Char} (h : c ≠ '_') (t : List Char) : ungrouped (c :: t) = c :: ungrouped t := by
  simp [ungrouped, h]

theorem ungrouped_underscore (t : List Char) : ungrouped ('_' :: t) = ungrouped t := by
  simp [ungrouped]

theorem ungrouped_sign (sign : Sign) (t : List Char) : ungrouped (sign.text ++ t) = sign.text ++ ungrouped t := by
  cases sign <;> rfl

/-- Where no underscore comes first, the first character stays. -/
theorem head?_ungrouped {t : List Char} (h : t.head? ≠ some '_') : (ungrouped t).head? = t.head? := by
  cases t with
  | nil => rfl
  | cons c t =>
    have plain : c ≠ '_' := fun same => h (by rw [same]; rfl)
    rw [ungrouped_cons plain]
    rfl

/-- Underscores are read over among the digits of a number. -/
theorem readSignificand_ungrouped (hexadecimal : Bool) (s : Significand) (t : List Char) :
    readSignificand (baseOf hexadecimal) s (ungrouped t) =
        ((readSignificand (baseOf hexadecimal) s t).1, ungrouped (readSignificand (baseOf hexadecimal) s t).2) ∧
      (readSignificand (baseOf hexadecimal) s t).2.head? ≠ some '_' := by
  fun_induction readSignificand (baseOf hexadecimal) s t with
  | case1 => exact ⟨rfl, nofun⟩
  | case2 s t ih =>
    rw [ungrouped_underscore]
    exact ih
  | case3 s t point =>
    rw [ungrouped_cons (by decide), readSignificand, if_neg (by decide), if_pos rfl, if_pos point]
    exact ⟨rfl, by simp⟩
  | case4 s t point _ ih =>
    rw [ungrouped_cons (by decide), readSignificand, if_neg (by decide), if_pos rfl, if_neg point]
    exact ih
  | case5 s c t score point v digit ih =>
    rw [ungrouped_cons score, readSignificand, if_neg score, if_neg point, digit]
    exact ih
  | case6 s c t score point none_ =>
    rw [ungrouped_cons score, readSignificand, if_neg score, if_neg point, none_]
    exact ⟨rfl, by simpa using score⟩

/-- Underscores are read over among the digits of an exponent. -/
theorem readExponentDigits_ungrouped (e : Nat) (t : List Char) :
    readExponentDigits e (ungrouped t) = ((readExponentDigits e t).1, ungrouped (readExponentDigits e t).2) ∧
      (readExponentDigits e t).2.head? ≠ some '_' := by
  fun_induction readExponentDigits e t with
  | case1 => exact ⟨rfl, (Option.some_ne_none '_').symm⟩
  | case2 e t ih =>
    rw [ungrouped_underscore]
    exact ih
  | case3 e c t score v digit ih =>
    rw [ungrouped_cons score, readExponentDigits, if_neg score, digit]
    exact ih
  | case4 e c t score none_ =>
    rw [ungrouped_cons score, readExponentDigits, if_neg score, none_]
    exact ⟨rfl, by simpa using score⟩

/-- A digit is grouped as one. -/
theorem groupingOk_digit {hexadecimal : Bool} {c : Char} (h : IsDigit (baseOf hexadecimal) c) (last : Grouping)
    (t : List Char) : groupingOk hexadecimal last (c :: t) = groupingOk hexadecimal .digit t := by
  rw [groupingOk]
  exact if_pos h

/-- An underscore has to follow a digit. -/
theorem groupingOk_underscore (hexadecimal : Bool) (last : Grouping) (t : List Char) :
    groupingOk hexadecimal last ('_' :: t) = (last == .digit && groupingOk hexadecimal .underscore t) := by
  rw [groupingOk]
  exact (if_neg (not_isDigit_underscore hexadecimal)).trans (if_pos rfl)

/-- No other character follows an underscore. -/
theorem groupingOk_other {hexadecimal : Bool} {c : Char} (digit : ¬ IsDigit (baseOf hexadecimal) c)
    (underscore : c ≠ '_') (last : Grouping) (t : List Char) :
    groupingOk hexadecimal last (c :: t) = (last != .underscore && groupingOk hexadecimal .other t) := by
  rw [groupingOk]
  exact (if_neg digit).trans (if_neg underscore)

/-- What digits leave is grouped where the whole is. -/
theorem groupingOk_readSignificand {hexadecimal : Bool} {last : Grouping} {t : List Char}
    (grouped : groupingOk hexadecimal last t = true) (s : Significand) :
    ∃ last', groupingOk hexadecimal last' (readSignificand (baseOf hexadecimal) s t).2 = true := by
  fun_induction readSignificand (baseOf hexadecimal) s t generalizing last with
  | case1 => exact ⟨last, grouped⟩
  | case2 s t ih =>
    rw [groupingOk_underscore, Bool.and_eq_true] at grouped
    exact ih grouped.2
  | case3 s t point => exact ⟨last, grouped⟩
  | case4 s t _ point ih =>
    rw [groupingOk_other (not_isDigit_point hexadecimal) (by decide), Bool.and_eq_true] at grouped
    exact ih grouped.2
  | case5 s c t score point v digit ih =>
    rw [groupingOk_digit (by rw [IsDigit, digit]; rfl)] at grouped
    exact ih grouped
  | case6 s c t score point none_ => exact ⟨last, grouped⟩

/-- Underscores are read over in an exponent, where none stands in front of its digits. -/
theorem readExponent_ungrouped {hexadecimal : Bool} {t : List Char}
    (grouped : groupingOk hexadecimal .other t = true) :
    spanned (readExponent (ungrouped t)) = spanned (readExponent t) := by
  obtain ⟨sign, u, rfl, leads⟩ := exists_sign t
  have first : u.head? ≠ some '_' := by
    intro underscore
    obtain ⟨v, rfl⟩ := List.head?_eq_some_iff.1 underscore
    have notSign {c : Char} (hc : c = '+' ∨ c = '-') : ¬ IsDigit (baseOf hexadecimal) c := by
      rcases hc with rfl | rfl <;> cases hexadecimal <;> decide
    cases sign with
    | none => simp [Sign.text, groupingOk_underscore] at grouped
    | plus => simp [Sign.text, groupingOk_other (notSign (.inl rfl)), groupingOk_underscore] at grouped
    | minus => simp [Sign.text, groupingOk_other (notSign (.inr rfl)), groupingOk_underscore] at grouped
  have leads' : sign.Leads (ungrouped u) := by
    intro none_
    rw [head?_ungrouped first]
    exact leads none_
  obtain ⟨read, stop⟩ := readExponentDigits_ungrouped 0 u
  rw [ungrouped_sign, readExponent_sign leads, readExponent_sign leads', signedExponent, signedExponent,
    head?_ungrouped first, read]
  split
  · cases left : (readExponentDigits 0 u).2 with
    | nil => rfl
    | cons c v =>
      rw [left] at stop
      have plain : c ≠ '_' := fun h => stop (by rw [h]; rfl)
      rw [ungrouped_cons plain]
      rfl
  · rfl

/-- Underscores are read over in a numeral that is grouped. -/
theorem readBody_ungrouped {hexadecimal : Bool} {last : Grouping} {t : List Char}
    (grouped : groupingOk hexadecimal last t = true) :
    readBody hexadecimal (ungrouped t) = readBody hexadecimal t := by
  obtain ⟨read, stop⟩ := readSignificand_ungrouped hexadecimal {} t
  obtain ⟨last', behind⟩ := groupingOk_readSignificand grouped {}
  rw [readBody, readBody, read]
  dsimp only
  have same : readTail hexadecimal (ungrouped (readSignificand (baseOf hexadecimal) {} t).2) =
      readTail hexadecimal (readSignificand (baseOf hexadecimal) {} t).2 := by
    cases left : (readSignificand (baseOf hexadecimal) {} t).2 with
    | nil => rfl
    | cons c more =>
      rw [left] at stop behind
      have plain : c ≠ '_' := fun h => stop (by rw [h]; rfl)
      rw [ungrouped_cons plain, readTail, readTail]
      by_cases mark : foldCase c = markOf hexadecimal
      · rw [groupingOk_other (not_isDigit_of_mark mark) plain, Bool.and_eq_true] at behind
        rw [if_pos mark, if_pos mark, readExponent_ungrouped behind.2]
      · rw [if_neg mark, if_neg mark]
  rw [same]

/-- What holds wherever an underscore stands in a text holds at its start and behind it. -/
theorem forall_underscore_cons {c : Char} {t : List Char} {P : List Char → List Char → Prop} :
    (∀ a b, c :: t = a ++ '_' :: b → P a b) ↔
      (c = '_' → P [] t) ∧ ∀ a b, t = a ++ '_' :: b → P (c :: a) b := by
  constructor
  · intro h
    exact ⟨fun first => h [] t (by rw [first]; rfl), fun a b cut => h (c :: a) b (by rw [cut]; rfl)⟩
  · rintro ⟨first, later⟩ a b cut
    cases a with
    | nil =>
      obtain ⟨same, rfl⟩ := List.cons.inj cut
      exact first same
    | cons d a =>
      obtain ⟨rfl, behind⟩ := List.cons.inj cut
      exact later a b behind

/-- The last character of a text, or one in front of it. -/
theorem elim_getLast?_cons (c : Char) (a : List Char) (p : Prop) (P : Char → Prop) :
    (c :: a).getLast?.elim p P = a.getLast?.elim (P c) P := by
  rw [List.getLast?_cons]
  cases a.getLast? <;> rfl

/-- What was read in front of a text decides only whether an underscore may come first, or has to be followed
by a digit. -/
theorem groupingOk_iff (hexadecimal : Bool) (last : Grouping) (t : List Char) :
    groupingOk hexadecimal last t = true ↔
      (last = .underscore → ∃ c ∈ t.head?, IsDigit (baseOf hexadecimal) c) ∧
        ∀ a b, t = a ++ '_' :: b →
          a.getLast?.elim (last = .digit) (IsDigit (baseOf hexadecimal)) ∧
            ∃ c ∈ b.head?, IsDigit (baseOf hexadecimal) c := by
  induction t generalizing last with
  | nil =>
    have none_ : ∀ a b : List Char, [] ≠ a ++ '_' :: b := by simp
    cases last <;> simp [groupingOk, none_]
  | cons c t ih =>
    rw [forall_underscore_cons]
    simp only [elim_getLast?_cons]
    by_cases digit : IsDigit (baseOf hexadecimal) c
    · have underscore : c ≠ '_' := ne_underscore_of_isDigit digit
      rw [groupingOk_digit digit, ih]
      simp [digit, underscore]
    · by_cases underscore : c = '_'
      · subst underscore
        rw [groupingOk_underscore, Bool.and_eq_true, ih]
        cases last <;> simp [digit]
      · rw [groupingOk_other digit underscore, Bool.and_eq_true, ih]
        cases last <;> simp [digit, underscore]

theorem groupingOk_digit_iff (hexadecimal : Bool) (t : List Char) :
    groupingOk hexadecimal .digit t = true ↔ Grouped hexadecimal true t := by
  simp [groupingOk_iff, Grouped]

theorem groupingOk_start_iff (hexadecimal : Bool) (t : List Char) :
    groupingOk hexadecimal .start t = true ↔ Grouped hexadecimal false t := by
  simp [groupingOk_iff, Grouped]

/-! ## Magnitudes -/

/-- The numeral that a text is taken for, its base known. -/
def taken (t : List Char) : Bool × List Char :=
  match t with
  | '0' :: b :: d :: rest => if foldCase b = 'x' then (true, d :: rest) else (false, t)
  | _ => (false, t)

/-- How a numeral in a known base is read, if it is known whether it is grouped. -/
def readGrouped (hexadecimal grouped : Bool) (u : List Char) : Option Float :=
  let (s, rest) := readSignificand (baseOf hexadecimal) {} u
  if !s.sawDigit then none
  else
    let tail : Option (Int × List Char) := match rest with
      | c :: more => if foldCase c = markOf hexadecimal then readExponent more else none
      | [] => if hexadecimal then none else some (0, [])
    match tail with
    | some (e, []) =>
      if !grouped then none
      else if hexadecimal then ofBinary? s.value (e - 4 * s.places)
      else ofDecimal? s.value (e - s.places)
    | _ => none

theorem readGrouped_eq (hexadecimal grouped : Bool) (u : List Char) :
    readGrouped hexadecimal grouped u = if grouped then readBody hexadecimal u else none := by
  rw [readBody, readGrouped]
  generalize readSignificand (baseOf hexadecimal) {} u = r
  obtain ⟨s, rest⟩ := r
  dsimp only
  cases s.sawDigit with
  | false => simp
  | true =>
    cases rest with
    | nil => cases hexadecimal <;> cases grouped <;> rfl
    | cons c more =>
      rw [readTail]
      by_cases mark : foldCase c = markOf hexadecimal
      · simp only [if_pos mark]
        rcases readExponent more with - | ⟨e, - | ⟨d, u⟩⟩ <;> cases grouped <;> rfl
      · simp only [if_neg mark]
        cases grouped <;> rfl

/-- A magnitude is a numeral that is grouped. -/
theorem readMagnitude_eq (t : List Char) :
    readMagnitude t = if wellGrouped t then readBody (taken t).1 (taken t).2 else none :=
  readGrouped_eq (taken t).1 (wellGrouped t) (taken t).2

/-- The letters that announce a base are not those of a decimal numeral. -/
theorem readBody_of_base {b : Char} (base : foldCase b = 'x' ∨ foldCase b = 'b' ∨ foldCase b = 'o')
    (u : List Char) : readBody false ('0' :: b :: u) = none := by
  have other {c : Char} (hc : foldCase c ≠ 'x' ∧ foldCase c ≠ 'b' ∧ foldCase c ≠ 'o') : b ≠ c := by
    rintro rfl
    exact base.elim hc.1 fun later => later.elim hc.2.1 hc.2.2
  have digit : ¬ IsDigit (baseOf false) b := by
    rw [IsDigit, digit?]
    rcases base with base | base | base <;> rw [base] <;> decide
  have zero : ∀ c ∈ ['0'], IsDigit (baseOf false) c := List.forall_mem_singleton.2 (by decide)
  have stop : ∀ c ∈ (b :: u).head?, ¬ IsDigit (baseOf false) c ∧ c ≠ '_' ∧
      (c = '.' → (Significand.push (baseOf false) {} ['0']).sawPoint = true) := by
    rintro c ⟨⟩
    exact ⟨digit, other (by decide), fun point => absurd point (other (by decide))⟩
  have mark : foldCase b ≠ markOf false := by
    rcases base with base | base | base <;> rw [base] <;> decide
  have read := (readSignificand_digits zero {} (b :: u)).trans (readSignificand_stop stop)
  rw [List.singleton_append] at read
  rw [readBody, read]
  dsimp only
  rw [readTail, if_neg mark]
  rfl

theorem wellGrouped_hexadecimal {b : Char} (base : foldCase b = 'x') (u : List Char) :
    wellGrouped ('0' :: b :: u) = groupingOk true .digit u := by
  rw [wellGrouped]
  exact if_pos base

/-- A letter in lower case stays, and none becomes an underscore. -/
theorem foldCase_foldCase (c : Char) : foldCase (foldCase c) = foldCase c ∧ (foldCase c = '_' ↔ c = '_') := by
  by_cases upper : 'A' ≤ c ∧ c ≤ 'Z'
  · have letters : ∀ n < 91, 65 ≤ n → foldCase (foldCase (Char.ofNat n)) = foldCase (Char.ofNat n) ∧
        (foldCase (Char.ofNat n) = '_' ↔ Char.ofNat n = '_') := by decide
    have first : 65 ≤ c.toNat := upper.1
    have last : c.toNat ≤ 90 := upper.2
    have letter := letters c.toNat (Nat.lt_succ_of_le last) first
    rwa [Char.ofNat_toNat] at letter
  · have same : foldCase c = c := if_neg upper
    rw [same]
    exact ⟨same, Iff.rfl⟩

theorem groupingOk_foldCase (hexadecimal : Bool) (last : Grouping) (c : Char) (t : List Char) :
    groupingOk hexadecimal last (foldCase c :: t) = groupingOk hexadecimal last (c :: t) := by
  obtain ⟨fold, underscore⟩ := foldCase_foldCase c
  have digit : IsDigit (baseOf hexadecimal) (foldCase c) ↔ IsDigit (baseOf hexadecimal) c := by
    rw [IsDigit, IsDigit, digit?, digit?, fold]
  by_cases isDigit : IsDigit (baseOf hexadecimal) c
  · rw [groupingOk_digit (digit.2 isDigit), groupingOk_digit isDigit]
  · by_cases isUnderscore : c = '_'
    · rw [underscore.2 isUnderscore, isUnderscore]
    · rw [groupingOk_other (mt digit.1 isDigit) (mt underscore.1 isUnderscore),
        groupingOk_other isDigit isUnderscore]

/-- What is read as a decimal numeral is grouped as one. -/
theorem wellGrouped_decimal {t : List Char} {x : Float} (read : readBody false t = some x) :
    wellGrouped t = groupingOk false .start t := by
  unfold wellGrouped
  split
  · next b u =>
    have plain {c : Char} (hc : c = 'x' ∨ c = 'b' ∨ c = 'o') : foldCase b ≠ c := by
      intro same
      rw [readBody_of_base (by rw [same]; exact hc)] at read
      cases read
    simp only [plain (.inl rfl), plain (.inr (.inl rfl)), plain (.inr (.inr rfl)), or_self, if_false]
    have zero : IsDigit (baseOf false) '0' := by decide
    rw [groupingOk_digit zero, groupingOk_digit zero, groupingOk_foldCase]
  · rfl

/-- The text of a proper numeral begins with a digit or the point. -/
theorem Numeral.Proper.exists_text_eq {hexadecimal : Bool} {m : Numeral} (proper : m.Proper hexadecimal) :
    ∃ c t, m.text = c :: t ∧ (IsDigit (baseOf hexadecimal) c ∨ c = '.') := by
  rw [Numeral.text, Numeral.mantissa]
  cases whole : m.whole with
  | cons c w =>
    refine ⟨c, _, rfl, .inl (proper.digits c ?_)⟩
    rw [Numeral.digits, whole]
    exact List.mem_cons_self
  | nil =>
    cases point : m.fraction with
    | some f => exact ⟨'.', _, rfl, .inr rfl⟩
    | none =>
      have none_ : m.digits = [] := by simp [Numeral.digits, Numeral.places, whole, point]
      exact absurd none_ proper.some_digit

/-- What is read as a numeral and is grouped has the text of a proper one, but for the grouping. -/
theorem exists_of_grouped {hexadecimal : Bool} {last : Grouping} {t : List Char} {x : Float}
    (grouped : groupingOk hexadecimal last t = true) (read : readBody hexadecimal t = some x) :
    ∃ m : Numeral, m.Proper hexadecimal ∧ ungrouped t = m.text ∧ m.value? hexadecimal = some x :=
  exists_of_readBody (not_mem_ungrouped t) (by rw [readBody_ungrouped grouped, read])

theorem readBody_of_grouped {hexadecimal : Bool} {last : Grouping} {t : List Char} {m : Numeral}
    (grouped : groupingOk hexadecimal last t = true) (proper : m.Proper hexadecimal)
    (text : ungrouped t = m.text) : readBody hexadecimal t = m.value? hexadecimal := by
  rw [← readBody_ungrouped grouped, text, readBody_text proper]

/-- The texts that are read as unsigned numerals. -/
theorem readMagnitude_eq_some_iff {t : List Char} {x : Float} :
    readMagnitude t = some x ↔
      (∃ m : Numeral, m.Proper false ∧ ungrouped t = m.text ∧ m.value? false = some x ∧ Grouped false false t) ∨
      ∃ (mark : Char) (u : List Char) (m : Numeral), t = '0' :: mark :: u ∧ foldCase mark = 'x' ∧
        m.Proper true ∧ ungrouped u = m.text ∧ m.value? true = some x ∧ Grouped true true u := by
  rw [readMagnitude_eq]
  constructor
  · intro read
    split at read
    · next grouped =>
      have decimal (read : readBody false t = some x) :
          ∃ m : Numeral, m.Proper false ∧ ungrouped t = m.text ∧ m.value? false = some x ∧
            Grouped false false t := by
        rw [wellGrouped_decimal read] at grouped
        obtain ⟨m, proper, text, value⟩ := exists_of_grouped grouped read
        exact ⟨m, proper, text, value, (groupingOk_start_iff _ _).1 grouped⟩
      unfold taken at read
      split at read
      · next b d u =>
        split at read
        · next base =>
          rw [wellGrouped_hexadecimal base] at grouped
          obtain ⟨m, proper, text, value⟩ := exists_of_grouped grouped read
          exact .inr ⟨b, d :: u, m, rfl, base, proper, text, value, (groupingOk_digit_iff _ _).1 grouped⟩
        · exact .inl (decimal read)
      · exact .inl (decimal read)
    · cases read
  · rintro (⟨m, proper, text, value, grouped⟩ | ⟨mark, u, m, rfl, base, proper, text, value, grouped⟩)
    · have ok := (groupingOk_start_iff _ _).2 grouped
      have read := (readBody_of_grouped ok proper text).trans value
      have whole : taken t = (false, t) := by
        unfold taken
        split
        · next b d u =>
          refine if_neg fun base => ?_
          rw [readBody_of_base (.inl base)] at read
          cases read
        · rfl
      rw [wellGrouped_decimal read, if_pos ok, whole, read]
    · have ok := (groupingOk_digit_iff _ _).2 grouped
      obtain ⟨c, r, some_text, -⟩ := proper.exists_text_eq
      have whole : taken ('0' :: mark :: u) = (true, u) := by
        cases u with
        | nil => rw [← text] at some_text; cases some_text
        | cons d u => exact if_pos base
      rw [wellGrouped_hexadecimal base, if_pos ok, whole, readBody_of_grouped ok proper text, value]

/-- An unsigned numeral begins with a digit or the point. -/
theorem exists_of_readMagnitude {t : List Char} {x : Float} (read : readMagnitude t = some x) :
    ∃ c u, t = c :: u ∧ (IsDigit 10 c ∨ c = '.') := by
  rcases readMagnitude_eq_some_iff.1 read with
    ⟨m, proper, text, -, grouped⟩ | ⟨mark, u, m, rfl, -⟩
  · obtain ⟨c, u, some_text, first⟩ := proper.exists_text_eq
    cases t with
    | nil => rw [← text] at some_text; cases some_text
    | cons d t =>
      by_cases underscore : d = '_'
      · exact absurd (grouped [] t (by rw [underscore]; rfl)).1 Bool.false_ne_true
      · rw [ungrouped_cons underscore, some_text] at text
        rw [(List.cons.inj text).1]
        exact ⟨c, t, rfl, first⟩
  · exact ⟨'0', _, rfl, .inl (by decide)⟩

/-! ## Words and signs -/

/-- The texts that are read as words. -/
theorem readWord_eq_some_iff {negative signed : Bool} {t : List Char} {x : Float} :
    readWord negative signed t = some x ↔
      ((t.map foldCase = "inf".toList ∨ t.map foldCase = "infinity".toList) ∧ x = infinity negative) ∨
        (t.map foldCase = "nan".toList ∧ signed = false ∧ x = nan) := by
  have spelled (word : String) : String.ofList (t.map foldCase) = word ↔ t.map foldCase = word.toList := by
    constructor
    · intro h
      rw [← h, String.toList_ofList]
    · intro h
      rw [h, String.ofList_toList]
  unfold readWord
  simp only [spelled]
  constructor
  · intro read
    split at read
    · next infinite => exact .inl ⟨infinite, (Option.some.inj read).symm⟩
    · split at read
      · next nan => exact .inr ⟨nan.1, by simpa using nan.2, (Option.some.inj read).symm⟩
      · cases read
  · rintro (⟨infinite, rfl⟩ | ⟨word, rfl, rfl⟩)
    · exact if_pos infinite
    · have other : "nan".toList ≠ "inf".toList ∧ "nan".toList ≠ "infinity".toList := by decide
      rw [word, if_neg (fun h => h.elim other.1 other.2)]
      exact if_pos ⟨rfl, rfl⟩

/-- A word begins with a letter. -/
theorem not_number_of_readWord {negative signed : Bool} {c : Char} {t : List Char} {x : Float}
    (read : readWord negative signed (c :: t) = some x) : ¬ (IsDigit 10 c ∨ c = '.') := by
  have letter : foldCase c = 'i' ∨ foldCase c = 'n' := by
    rcases readWord_eq_some_iff.1 read with ⟨inf | infinity, -⟩ | ⟨nan, -⟩
    · exact .inl (List.cons.inj inf).1
    · exact .inl (List.cons.inj infinity).1
    · exact .inr (List.cons.inj nan).1
  rintro (digit | rfl)
  · rw [IsDigit, digit?] at digit
    rcases letter with letter | letter <;> rw [letter] at digit <;> exact absurd digit (by decide)
  · exact absurd letter (by decide)

/-- The sign is read first. -/
theorem read?_sign {sign : Sign} {t : List Char} (leads : sign.Leads t) :
    read? (sign.text ++ t) =
      match readWord sign.negative sign.isThere t with
      | some x => some x
      | none => (readMagnitude t).map (withSign sign.negative) := by
  cases sign with
  | none =>
    obtain ⟨plus, minus⟩ := leads rfl
    rw [Sign.text, List.nil_append]
    unfold read?
    split
    next signed negative u cut =>
    split at cut
    · exact absurd rfl plus
    · exact absurd rfl minus
    · cases cut
      rfl
  | plus | minus => rfl

/-- What a sign may lead: neither a word nor a numeral begins with another one. -/
theorem leads_of_cons {sign : Sign} {c : Char} {t : List Char} (plus : c ≠ '+') (minus : c ≠ '-') :
    sign.Leads (c :: t) :=
  fun _ => ⟨fun h => plus (Option.some.inj h), fun h => minus (Option.some.inj h)⟩

theorem leads_of_word {w : List Char} {c : Char} {v : List Char} (word : w.map foldCase = c :: v)
    (letter : c ≠ '+' ∧ c ≠ '-') (sign : Sign) : sign.Leads w := by
  cases w with
  | nil => cases word
  | cons d w =>
    have fold : foldCase d = c := (List.cons.inj word).1
    refine leads_of_cons ?_ ?_
    · rintro rfl
      exact letter.1 fold.symm
    · rintro rfl
      exact letter.2 fold.symm

theorem read?_of_word {sign : Sign} {w : List Char} {x : Float} (leads : sign.Leads w)
    (read : readWord sign.negative sign.isThere w = some x) : read? (sign.text ++ w) = some x := by
  rw [read?_sign leads, read]

theorem read?_of_magnitude {t : List Char} {x : Float} (read : readMagnitude t = some x) (sign : Sign) :
    read? (sign.text ++ t) = some (withSign sign.negative x) := by
  obtain ⟨c, u, rfl, first⟩ := exists_of_readMagnitude read
  have plus : c ≠ '+' := by
    rintro rfl
    exact absurd first (by decide)
  have minus : c ≠ '-' := by
    rintro rfl
    exact absurd first (by decide)
  have noWord : readWord sign.negative sign.isThere (c :: u) = none := by
    cases word : readWord sign.negative sign.isThere (c :: u) with
    | none => rfl
    | some y => exact absurd first (not_number_of_readWord word)
  rw [read?_sign (leads_of_cons plus minus), noWord, read]
  rfl

/-- The reader of numbers accepts exactly the texts that spell a number, and gives that number. -/
theorem read?_eq_some_iff {t : List Char} {x : Float} : read? t = some x ↔ Spells t x := by
  constructor
  · intro read
    obtain ⟨sign, u, rfl, leads⟩ := exists_sign t
    rw [read?_sign leads] at read
    split at read
    · next y word =>
      cases read
      rcases readWord_eq_some_iff.1 word with ⟨infinite, rfl⟩ | ⟨nan, signed, rfl⟩
      · exact .infinity sign infinite
      · cases sign with
        | none => exact .nan nan
        | plus | minus => cases signed
    · obtain ⟨y, magnitude, rfl⟩ := Option.map_eq_some_iff.1 read
      rcases readMagnitude_eq_some_iff.1 magnitude with
        ⟨m, proper, text, value, grouped⟩ | ⟨mark, v, m, rfl, base, proper, text, value, grouped⟩
      · exact .decimal sign proper text grouped value
      · exact .hexadecimal sign base proper text grouped value
  · intro spells
    cases spells with
    | infinity sign word =>
      have leads : sign.Leads _ := word.elim (leads_of_word · (by decide) sign) (leads_of_word · (by decide) sign)
      exact read?_of_word leads (readWord_eq_some_iff.2 (.inl ⟨word, rfl⟩))
    | nan word =>
      have leads := leads_of_word word (by decide) Sign.none
      exact read?_of_word leads (readWord_eq_some_iff.2 (.inr ⟨word, rfl, rfl⟩))
    | decimal sign proper text grouped value =>
      exact read?_of_magnitude (readMagnitude_eq_some_iff.2 (.inl ⟨_, proper, text, value, grouped⟩)) sign
    | hexadecimal sign base proper text grouped value =>
      exact read?_of_magnitude
        (readMagnitude_eq_some_iff.2 (.inr ⟨_, _, _, rfl, base, proper, text, value, grouped⟩)) sign

/-! ## Characters -/

/-- A character that numerals are written with: a digit, an underscore, a point, a sign, the letter of a base
or an exponent, or one of a word. -/
def isNumeralChar (c : Char) : Bool := (digit? 16 c).isSome || "_.+-xpinfty".toList.contains (foldCase c)

theorem isNumeralChar_of_isDigit {base : Nat} (narrow : base ≤ 16) {c : Char} (h : IsDigit base c) :
    isNumeralChar c = true := by
  have digit : (digit? 16 c).isSome = true := by
    unfold IsDigit digit? at h
    unfold digit?
    dsimp only at h ⊢
    generalize (if '0' ≤ foldCase c ∧ foldCase c ≤ '9' then (foldCase c).toNat - 48
      else if 'a' ≤ foldCase c ∧ foldCase c ≤ 'f' then (foldCase c).toNat - 87 else 16) = v at h ⊢
    by_cases small : v < base
    · rw [if_pos (Nat.lt_of_lt_of_le small narrow)]
      rfl
    · rw [if_neg small] at h
      cases h
  rw [isNumeralChar, digit, Bool.true_or]

theorem isNumeralChar_of_fold {c d : Char} (fold : foldCase c = foldCase d) (h : isNumeralChar d = true) :
    isNumeralChar c = true := by
  rw [isNumeralChar, digit?, fold]
  exact h

theorem Sign.isNumeralChar (sign : Sign) : ∀ c ∈ sign.text, isNumeralChar c = true :=
  List.all_eq_true.1 (by cases sign <;> decide)

theorem Numeral.Proper.isNumeralChar {hexadecimal : Bool} {m : Numeral} (proper : m.Proper hexadecimal) :
    ∀ c ∈ m.text, isNumeralChar c = true := by
  have narrow : baseOf hexadecimal ≤ 16 := by cases hexadecimal <;> decide
  have figures {ds : List Char} {base : Nat} (narrow : base ≤ 16) (h : ∀ c ∈ ds, IsDigit base c) :
      ∀ c ∈ ds, Number.isNumeralChar c = true := fun c hc => isNumeralChar_of_isDigit narrow (h c hc)
  obtain ⟨whole, behind⟩ := List.forall_mem_append.1 proper.digits
  refine List.forall_mem_append.2 ⟨List.forall_mem_append.2 ⟨figures narrow whole, ?_⟩, ?_⟩
  · rw [places] at behind
    cases point : m.fraction with
    | none => simp
    | some f =>
      rw [point] at behind
      exact List.forall_mem_cons.2 ⟨by decide, figures narrow behind⟩
  · rw [tail]
    cases scaled : m.exponent with
    | none => simp
    | some e =>
      obtain ⟨mark, digits, -⟩ := proper.exponent e scaled
      have letter : Number.isNumeralChar e.mark = true := by
        refine isNumeralChar_of_fold (d := markOf hexadecimal) ?_ ?_
        · rw [mark]
          cases hexadecimal <;> decide
        · cases hexadecimal <;> decide
      exact List.forall_mem_cons.2
        ⟨letter, List.forall_mem_append.2 ⟨e.sign.isNumeralChar, figures (by decide) digits⟩⟩

/-- What spells a number is written with the characters of numerals. -/
theorem Spells.isNumeralChar {t : List Char} {x : Float} (spells : Spells t x) :
    ∀ c ∈ t, isNumeralChar c = true := by
  have word {w s : List Char} (h : w.map foldCase = s)
      (letters : s.all (fun c => foldCase c == c && Number.isNumeralChar c) = true) :
      ∀ c ∈ w, Number.isNumeralChar c = true := by
    intro c hc
    have letter := List.all_eq_true.1 letters (foldCase c) (by rw [← h]; exact List.mem_map_of_mem hc)
    rw [Bool.and_eq_true, beq_iff_eq] at letter
    exact isNumeralChar_of_fold letter.1.symm letter.2
  have grouped {m : Numeral} {hexadecimal : Bool} {t : List Char} (proper : m.Proper hexadecimal)
      (text : ungrouped t = m.text) : ∀ c ∈ t, Number.isNumeralChar c = true := by
    intro c hc
    by_cases underscore : c = '_'
    · rw [underscore]
      decide
    · exact proper.isNumeralChar c (by rw [← text]; simp [ungrouped, hc, underscore])
  cases spells with
  | infinity sign infinite =>
    exact List.forall_mem_append.2
      ⟨sign.isNumeralChar, infinite.elim (word · (by decide)) (word · (by decide))⟩
  | nan nan => exact word nan (by decide)
  | decimal sign proper text _ value => exact List.forall_mem_append.2 ⟨sign.isNumeralChar, grouped proper text⟩
  | hexadecimal sign base proper text _ value =>
    have mark := isNumeralChar_of_fold (d := 'x') (base.trans (by decide)) (by decide)
    exact List.forall_mem_append.2
      ⟨sign.isNumeralChar, List.forall_mem_cons.2 ⟨by decide, List.forall_mem_cons.2 ⟨mark, grouped proper text⟩⟩⟩

/-! ## Integers -/

/-- The integer that a sign and digits spell. -/
def signed (sign : Sign) (ds : List Char) : Int := if sign.negative then -(ofDigits ds : Int) else ofDigits ds

theorem readInteger?_sign {sign : Sign} {t : List Char} (leads : sign.Leads t) :
    readInteger? (sign.text ++ t) =
      if t.isEmpty || !t.all Char.isDigit then none
      else if leastWord ≤ signed sign t ∧ signed sign t ≤ greatestWord then some (signed sign t) else none := by
  cases sign with
  | none =>
    obtain ⟨plus, minus⟩ := leads rfl
    rw [Sign.text, List.nil_append]
    unfold readInteger?
    split
    next negative u cut =>
    split at cut
    · exact absurd rfl plus
    · exact absurd rfl minus
    · cases cut
      rfl
  | plus | minus => rfl

/-- The texts that are read as integers: a sign and decimal digits, within 64 bits. -/
theorem readInteger?_eq_some_iff {t : List Char} {n : Int} :
    readInteger? t = some n ↔
      ∃ (sign : Sign) (ds : List Char), t = sign.text ++ ds ∧ (∀ c ∈ ds, c.isDigit = true) ∧ ds ≠ [] ∧
        leastWord ≤ signed sign ds ∧ signed sign ds ≤ greatestWord ∧ n = signed sign ds := by
  constructor
  · intro read
    obtain ⟨sign, ds, rfl, leads⟩ := exists_sign t
    rw [readInteger?_sign leads] at read
    split at read
    · cases read
    · next digits =>
      split at read
      · next fits =>
        cases read
        simp only [Bool.or_eq_true, Bool.not_eq_true', not_or, List.isEmpty_iff, Bool.not_eq_false,
          List.all_eq_true] at digits
        exact ⟨sign, ds, rfl, digits.2, digits.1, fits.1, fits.2, rfl⟩
      · cases read
  · rintro ⟨sign, ds, rfl, digits, some_digit, least, greatest, rfl⟩
    have leads : sign.Leads ds := by
      have other {c : Char} (hc : c.isDigit = false) : ds.head? ≠ some c := by
        intro first
        rw [digits c (List.mem_of_mem_head? first)] at hc
        cases hc
      exact fun _ => ⟨other (by decide), other (by decide)⟩
    have spelled : ¬(ds.isEmpty || !ds.all Char.isDigit) = true := by
      simpa [some_digit] using digits
    rw [readInteger?_sign leads, if_neg spelled, if_pos ⟨least, greatest⟩]

end Gapscript.Number
