import Gapscript.Number.Numeral

/-!
# Numerals

A numeral has digits in base ten or sixteen, with a point among them, and an exponent. The reader of numbers
reads exactly the proper ones to their end (`readBody_text`, `exists_of_readBody`): the digits up to what does
not continue them, and the exponent behind them.
-/

namespace Gapscript.Number

/-! ## Numerals -/

/-- A sign in front of digits, if there is one. -/
inductive Sign where
  | none
  | plus
  | minus

namespace Sign

/-- The sign as it is written. -/
def text : Sign → List Char
  | none => []
  | plus => ['+']
  | minus => ['-']

/-- The sign is that of a negative number. -/
def negative : Sign → Bool
  | minus => true
  | _ => false

/-- A sign is there. -/
def isThere : Sign → Bool
  | none => false
  | _ => true

end Sign

/-- The base of the digits of a numeral. -/
def baseOf (hexadecimal : Bool) : Nat := if hexadecimal then 16 else 10

/-- The letter in front of an exponent, in lower case. -/
def markOf (hexadecimal : Bool) : Char := if hexadecimal then 'p' else 'e'

/-- A digit in a base. -/
def IsDigit (base : Nat) (c : Char) : Prop := (digit? base c).isSome = true

instance (base : Nat) (c : Char) : Decidable (IsDigit base c) := inferInstanceAs (Decidable (_ = true))

/-- The number that digits spell. -/
def valueOf (base : Nat) (ds : List Char) : Nat :=
  ds.foldl (fun n c => n * base + (digit? base c).getD 0) 0

/-- The number that the digits of an exponent spell, cut once it has five digits. -/
def powerOf (ds : List Char) : Nat :=
  ds.foldl (fun e c => if e < 10000 then e * 10 + (digit? 10 c).getD 0 else e) 0

/-- An exponent: its letter, sign and digits. -/
structure Exponent where
  mark : Char
  sign : Sign
  digits : List Char

/-- The exponent as it is written. -/
def Exponent.text (e : Exponent) : List Char := e.mark :: (e.sign.text ++ e.digits)

/-- The exponent as a number. -/
def Exponent.power (e : Exponent) : Int := if e.sign.negative then -(powerOf e.digits : Int) else powerOf e.digits

/-- A numeral without sign, base and grouping: the digits in front of the point and behind it, and the
exponent. -/
structure Numeral where
  whole : List Char
  fraction : Option (List Char)
  exponent : Option Exponent

namespace Numeral

variable (m : Numeral)

/-- The digits behind the point. -/
def places : List Char := m.fraction.getD []

/-- The digits in front of the point and behind it. -/
def digits : List Char := m.whole ++ m.places

/-- The digits as they are written, with the point. -/
def mantissa : List Char := m.whole ++ (m.fraction.map ('.' :: ·)).getD []

/-- The exponent as it is written, nothing if there is none. -/
def tail : List Char := (m.exponent.map Exponent.text).getD []

/-- The numeral as it is written. -/
def text : List Char := m.mantissa ++ m.tail

/-- There is a digit, the exponent has one too, and a hexadecimal numeral has an exponent. -/
structure Proper (hexadecimal : Bool) : Prop where
  digits : ∀ c ∈ m.digits, IsDigit (baseOf hexadecimal) c
  some_digit : m.digits ≠ []
  exponent : ∀ e ∈ m.exponent,
    foldCase e.mark = markOf hexadecimal ∧ (∀ c ∈ e.digits, IsDigit 10 c) ∧ e.digits ≠ []
  scaled : hexadecimal = true → m.exponent.isSome = true

/-- The exponent as a number. -/
def power : Int := (m.exponent.map Exponent.power).getD 0

/-- The number nearest to what the numeral spells, if that is not beyond all finite ones. -/
def value? (hexadecimal : Bool) : Option Float :=
  if hexadecimal then ofBinary? (valueOf 16 m.digits) (m.power - 4 * m.places.length)
  else ofDecimal? (valueOf 10 m.digits) (m.power - m.places.length)

end Numeral

/-! ## Digits -/

theorem not_isDigit_underscore (hexadecimal : Bool) : ¬ IsDigit (baseOf hexadecimal) '_' := by
  cases hexadecimal <;> decide

theorem not_isDigit_point (hexadecimal : Bool) : ¬ IsDigit (baseOf hexadecimal) '.' := by
  cases hexadecimal <;> decide

/-- What a digit of either base is. -/
theorem digit?_eq_some {base : Nat} {c : Char} (h : IsDigit base c) :
    digit? base c = some ((digit? base c).getD 0) := by
  obtain ⟨v, hv⟩ := Option.isSome_iff_exists.1 h
  rw [hv]
  rfl

/-- The letter in front of an exponent is no digit. -/
theorem not_isDigit_of_mark {hexadecimal : Bool} {c : Char} (h : foldCase c = markOf hexadecimal) :
    ¬ IsDigit (baseOf hexadecimal) c := by
  rw [IsDigit, digit?, h]
  cases hexadecimal <;> decide

theorem ne_underscore_of_isDigit {hexadecimal : Bool} {c : Char} (h : IsDigit (baseOf hexadecimal) c) :
    c ≠ '_' := by
  rintro rfl
  exact not_isDigit_underscore hexadecimal h

theorem ne_point_of_isDigit {hexadecimal : Bool} {c : Char} (h : IsDigit (baseOf hexadecimal) c) :
    c ≠ '.' := by
  rintro rfl
  exact not_isDigit_point hexadecimal h

/-- The digits at the start of a text, and what comes after them. -/
theorem exists_digits (base : Nat) (t : List Char) :
    ∃ ds r, t = ds ++ r ∧ (∀ c ∈ ds, IsDigit base c) ∧ ∀ c ∈ r.head?, ¬ IsDigit base c := by
  refine ⟨t.takeWhile (IsDigit base ·), t.dropWhile (IsDigit base ·), List.takeWhile_append_dropWhile.symm,
    fun c hc => ?_, fun c hc digit => ?_⟩
  · have all := List.all_takeWhile (p := fun c => decide (IsDigit base c)) (l := t)
    exact of_decide_eq_true (List.all_eq_true.1 all c hc)
  · have stopped := List.head?_dropWhile_not (fun c => decide (IsDigit base c)) t
    rw [hc] at stopped
    simp [digit] at stopped

/-! ## The significand -/

/-- The digits of a significand with more behind them. -/
def Significand.push (base : Nat) (s : Significand) (ds : List Char) : Significand :=
  { value := ds.foldl (fun n c => n * base + (digit? base c).getD 0) s.value
    places := if s.sawPoint then s.places + ds.length else s.places
    sawDigit := s.sawDigit || !ds.isEmpty
    sawPoint := s.sawPoint }

/-- Digits are read one after the other. -/
theorem readSignificand_digits {hexadecimal : Bool} {ds : List Char}
    (digits : ∀ c ∈ ds, IsDigit (baseOf hexadecimal) c) (s : Significand) (r : List Char) :
    readSignificand (baseOf hexadecimal) s (ds ++ r) =
      readSignificand (baseOf hexadecimal) (s.push (baseOf hexadecimal) ds) r := by
  induction ds generalizing s with
  | nil =>
    have same : s.push (baseOf hexadecimal) [] = s := by
      cases s
      simp [Significand.push]
    rw [same, List.nil_append]
  | cons c ds ih =>
    obtain ⟨digit, later⟩ := List.forall_mem_cons.1 digits
    have value := digit?_eq_some digit
    rw [List.cons_append, readSignificand, if_neg (ne_underscore_of_isDigit digit),
      if_neg (ne_point_of_isDigit digit), value]
    dsimp only
    rw [ih later]
    congr 1
    obtain ⟨v, places, sawDigit, sawPoint⟩ := s
    simp only [Significand.push, List.foldl_cons, List.length_cons, List.isEmpty_cons, Bool.not_false,
      Bool.or_true, Bool.true_or]
    cases sawPoint with
    | false => rfl
    | true => simp only [if_true, Nat.add_comm ds.length 1, Nat.add_assoc]

/-- Reading ends at a character that is neither a digit, a point nor an underscore. -/
theorem readSignificand_stop {hexadecimal : Bool} {s : Significand} {r : List Char}
    (stop : ∀ c ∈ r.head?, ¬ IsDigit (baseOf hexadecimal) c ∧ c ≠ '_' ∧ (c = '.' → s.sawPoint = true)) :
    readSignificand (baseOf hexadecimal) s r = (s, r) := by
  cases r with
  | nil => rfl
  | cons c r =>
    obtain ⟨digit, underscore, point⟩ := stop c rfl
    rw [readSignificand, if_neg underscore]
    by_cases dot : c = '.'
    · rw [if_pos dot, if_pos (point dot)]
    · have none_ : digit? (baseOf hexadecimal) c = none := by simpa [IsDigit] using digit
      rw [if_neg dot, none_]

/-- The digits of a numeral are read up to what comes behind them. -/
theorem readSignificand_mantissa {hexadecimal : Bool} {m : Numeral}
    (digits : ∀ c ∈ m.digits, IsDigit (baseOf hexadecimal) c) {r : List Char}
    (stop : ∀ c ∈ r.head?, ¬ IsDigit (baseOf hexadecimal) c ∧ c ≠ '_' ∧ (c = '.' → m.fraction.isSome = true)) :
    readSignificand (baseOf hexadecimal) {} (m.mantissa ++ r) =
      (⟨valueOf (baseOf hexadecimal) m.digits, m.places.length, !m.digits.isEmpty, m.fraction.isSome⟩, r) := by
  rw [Numeral.mantissa, List.append_assoc]
  cases point : m.fraction with
  | none =>
    have whole : m.digits = m.whole := by simp [Numeral.digits, Numeral.places, point]
    rw [whole] at digits
    rw [readSignificand_digits digits, whole]
    refine (readSignificand_stop fun c hc => ?_).trans ?_
    · obtain ⟨digit, underscore, dot⟩ := stop c hc
      exact ⟨digit, underscore, fun h => by simpa [point] using dot h⟩
    · simp [Significand.push, Numeral.places, point, valueOf]
  | some f =>
    obtain ⟨whole, behind⟩ := List.forall_mem_append.1 digits
    have places : m.places = f := by simp [Numeral.places, point]
    have someDigit : (!m.whole.isEmpty || !f.isEmpty) = !m.digits.isEmpty := by
      rw [Numeral.digits, places]
      cases m.whole <;> simp
    rw [places] at behind
    rw [readSignificand_digits whole, Option.map_some, Option.getD_some, List.cons_append, readSignificand,
      if_neg (by decide), if_pos rfl, if_neg (by simp [Significand.push]), readSignificand_digits behind]
    refine (readSignificand_stop fun c hc => ?_).trans ?_
    · obtain ⟨digit, underscore, -⟩ := stop c hc
      exact ⟨digit, underscore, fun _ => rfl⟩
    · rw [← someDigit]
      simp [Significand.push, Numeral.digits, places, valueOf, List.foldl_append]

/-- A text without underscores begins with the digits of a numeral, up to what does not continue them. -/
theorem exists_mantissa (hexadecimal : Bool) {t : List Char} (plain : '_' ∉ t) :
    ∃ (m : Numeral) (r : List Char), t = m.mantissa ++ r ∧ (∀ c ∈ m.digits, IsDigit (baseOf hexadecimal) c) ∧
      ∀ c ∈ r.head?, ¬ IsDigit (baseOf hexadecimal) c ∧ c ≠ '_' ∧ (c = '.' → m.fraction.isSome = true) := by
  have notUnderscore {w r : List Char} (h : t = w ++ r) {c : Char} (hc : c ∈ r.head?) : c ≠ '_' := by
    rintro rfl
    exact plain (h ▸ List.mem_append_right w (List.mem_of_mem_head? hc))
  obtain ⟨w, r, cut, whole, stop⟩ := exists_digits (baseOf hexadecimal) t
  by_cases point : r.head? = some '.'
  · obtain ⟨u, rfl⟩ := List.head?_eq_some_iff.1 point
    obtain ⟨f, r, rfl, behind, stop⟩ := exists_digits (baseOf hexadecimal) u
    have cut' : t = (w ++ '.' :: f) ++ r := by simp [cut]
    refine ⟨⟨w, some f, none⟩, r, cut', List.forall_mem_append.2 ⟨whole, behind⟩, fun c hc => ?_⟩
    exact ⟨stop c hc, notUnderscore cut' hc, fun _ => rfl⟩
  · refine ⟨⟨w, none, none⟩, r, by simp [Numeral.mantissa, cut], ?_, fun c hc => ?_⟩
    · simpa [Numeral.digits, Numeral.places] using whole
    · refine ⟨stop c hc, notUnderscore cut hc, ?_⟩
      rintro rfl
      exact absurd hc point

/-! ## The exponent -/

/-- The digits of an exponent are read to their end. -/
theorem readExponentDigits_digits {ds : List Char} (digits : ∀ c ∈ ds, IsDigit 10 c) (e : Nat) :
    readExponentDigits e ds =
      (ds.foldl (fun e c => if e < 10000 then e * 10 + (digit? 10 c).getD 0 else e) e, []) := by
  induction ds generalizing e with
  | nil => rfl
  | cons c ds ih =>
    obtain ⟨digit, later⟩ := List.forall_mem_cons.1 digits
    have decimal : IsDigit (baseOf false) c := digit
    have underscore : c ≠ '_' := ne_underscore_of_isDigit decimal
    rw [readExponentDigits, if_neg underscore, digit?_eq_some digit]
    exact ih later _

/-- What is read to its end as the digits of an exponent is digits. -/
theorem digits_of_readExponentDigits {e : Nat} {t : List Char} (plain : '_' ∉ t)
    (ended : (readExponentDigits e t).2 = []) : ∀ c ∈ t, IsDigit 10 c := by
  fun_induction readExponentDigits e t with
  | case1 => simp
  | case2 e t ih => exact absurd List.mem_cons_self plain
  | case3 e c t score v digit ih =>
    have first : IsDigit 10 c := by rw [IsDigit, digit]; rfl
    exact List.forall_mem_cons.2 ⟨first, ih (fun h => plain (List.mem_cons_of_mem c h)) ended⟩
  | case4 e c t score none_ => cases ended

/-- What follows a sign, or is without one. -/
def Sign.Leads (sign : Sign) (t : List Char) : Prop := sign = none → t.head? ≠ some '+' ∧ t.head? ≠ some '-'

/-- The sign at the start of a text. -/
theorem exists_sign (t : List Char) : ∃ (sign : Sign) (u : List Char), t = sign.text ++ u ∧ sign.Leads u := by
  by_cases plus : t.head? = some '+'
  · obtain ⟨u, rfl⟩ := List.head?_eq_some_iff.1 plus
    exact ⟨.plus, u, rfl, nofun⟩
  · by_cases minus : t.head? = some '-'
    · obtain ⟨u, rfl⟩ := List.head?_eq_some_iff.1 minus
      exact ⟨.minus, u, rfl, nofun⟩
    · exact ⟨.none, t, rfl, fun _ => ⟨plus, minus⟩⟩

/-- An exponent behind its sign. -/
def signedExponent (negative : Bool) (t : List Char) : Option (Int × List Char) :=
  if t.head?.any fun c => (digit? 10 c).isSome then
    some (if negative then -((readExponentDigits 0 t).1 : Int) else (readExponentDigits 0 t).1,
      (readExponentDigits 0 t).2)
  else none

theorem any_isSome_digit {t : List Char} :
    (t.head?.any fun c => (digit? 10 c).isSome) = true ↔ ∃ c ∈ t.head?, IsDigit 10 c := by
  cases t <;> simp [IsDigit]

theorem readExponent_sign {sign : Sign} {t : List Char} (leads : sign.Leads t) :
    readExponent (sign.text ++ t) = signedExponent sign.negative t := by
  cases sign with
  | none =>
    obtain ⟨plus, minus⟩ := leads rfl
    rw [Sign.text, List.nil_append]
    unfold readExponent
    split
    next negative ds cut =>
    split at cut
    · exact absurd rfl plus
    · exact absurd rfl minus
    · cases cut
      cases t <;> rfl
  | plus | minus => cases t <;> rfl

theorem leads_of_digits {sign : Sign} {ds : List Char} (digits : ∀ c ∈ ds, IsDigit 10 c) : sign.Leads ds := by
  have other {c : Char} (hc : ¬ IsDigit 10 c) : ds.head? ≠ some c :=
    fun first => hc (digits c (List.mem_of_mem_head? first))
  exact fun _ => ⟨other (by decide), other (by decide)⟩

/-- The sign and the digits of an exponent are read. -/
theorem readExponent_text {e : Exponent} (digits : ∀ c ∈ e.digits, IsDigit 10 c) (some_digit : e.digits ≠ []) :
    readExponent (e.sign.text ++ e.digits) = some (e.power, []) := by
  obtain ⟨c, ds, cons⟩ := List.exists_cons_of_ne_nil some_digit
  have first : ∃ c ∈ e.digits.head?, IsDigit 10 c :=
    ⟨c, by rw [cons]; rfl, digits c (by rw [cons]; exact List.mem_cons_self)⟩
  rw [readExponent_sign (leads_of_digits digits), signedExponent, if_pos (any_isSome_digit.2 first),
    readExponentDigits_digits digits]
  rfl

/-- What is read to its end as an exponent is a sign and digits. -/
theorem exists_exponent {t : List Char} {k : Int} (plain : '_' ∉ t) (read : readExponent t = some (k, []))
    (mark : Char) :
    ∃ e : Exponent, e.text = mark :: t ∧ (∀ c ∈ e.digits, IsDigit 10 c) ∧ e.digits ≠ [] ∧ e.power = k := by
  obtain ⟨sign, ds, rfl, leads⟩ := exists_sign t
  rw [readExponent_sign leads, signedExponent] at read
  split at read
  · next first =>
    obtain ⟨c, first, -⟩ := any_isSome_digit.1 first
    obtain ⟨power, ended⟩ := Prod.mk.inj (Option.some.inj read)
    have digits := digits_of_readExponentDigits (fun h => plain (List.mem_append_right _ h)) ended
    refine ⟨⟨mark, sign, ds⟩, rfl, digits, ?_, ?_⟩
    · rintro rfl
      cases first
    · rw [readExponentDigits_digits digits] at power
      exact power
  · cases read

/-- An exponent that is read to the end of the text. -/
def spanned : Option (Int × List Char) → Option Int
  | some (e, []) => some e
  | _ => none

theorem eq_of_spanned {r : Option (Int × List Char)} {e : Int} (h : spanned r = some e) : r = some (e, []) := by
  unfold spanned at h
  split at h
  · cases h
    rfl
  · cases h

/-- Reads the exponent behind the digits of a numeral to the end of the text. -/
def readTail (hexadecimal : Bool) : List Char → Option Int
  | c :: more => if foldCase c = markOf hexadecimal then spanned (readExponent more) else none
  | [] => if hexadecimal then none else some 0

/-- The exponent of a proper numeral is read. -/
theorem readTail_tail {hexadecimal : Bool} {m : Numeral} (proper : m.Proper hexadecimal) :
    readTail hexadecimal m.tail = some m.power := by
  cases scaled : m.exponent with
  | none =>
    have base : hexadecimal = false := by simpa [scaled] using proper.scaled
    simp [Numeral.tail, Numeral.power, scaled, readTail, base]
  | some e =>
    obtain ⟨mark, digits, some_digit⟩ := proper.exponent e scaled
    simp only [Numeral.tail, Numeral.power, scaled, Option.map_some, Option.getD_some, Exponent.text]
    rw [readTail, if_pos mark, readExponent_text digits some_digit, spanned]

/-- What is read to its end behind digits is the exponent of a proper numeral with these digits. -/
theorem exists_proper {hexadecimal : Bool} {m : Numeral} {r : List Char} {k : Int} (plain : '_' ∉ r)
    (digits : ∀ c ∈ m.digits, IsDigit (baseOf hexadecimal) c) (some_digit : m.digits ≠ [])
    (read : readTail hexadecimal r = some k) :
    ∃ n : Numeral, n.Proper hexadecimal ∧ n.text = m.mantissa ++ r := by
  cases r with
  | nil =>
    cases hexadecimal with
    | true => cases read
    | false => exact ⟨⟨m.whole, m.fraction, none⟩, ⟨digits, some_digit, nofun, nofun⟩, rfl⟩
  | cons c more =>
    rw [readTail] at read
    split at read
    · next mark =>
      obtain ⟨e, text, marked, some_marked, -⟩ :=
        exists_exponent (fun h => plain (List.mem_cons_of_mem c h)) (eq_of_spanned read) c
      have letter : e.mark = c := (List.cons.inj text).1
      refine ⟨⟨m.whole, m.fraction, some e⟩, ⟨digits, some_digit, ?_, fun _ => rfl⟩, ?_⟩
      · rintro e' ⟨⟩
        exact ⟨by rw [letter, mark], marked, some_marked⟩
      · rw [← text]
        rfl
    · cases read

/-! ## Numerals without a sign -/

/-- Reads the digits and the exponent of a numeral that spans the text. -/
def readBody (hexadecimal : Bool) (t : List Char) : Option Float :=
  let (s, rest) := readSignificand (baseOf hexadecimal) {} t
  if !s.sawDigit then none
  else match readTail hexadecimal rest with
    | some e => if hexadecimal then ofBinary? s.value (e - 4 * s.places) else ofDecimal? s.value (e - s.places)
    | none => none

/-- What ends the digits of a proper numeral does not continue them. -/
theorem Numeral.Proper.stop {hexadecimal : Bool} {m : Numeral} (proper : m.Proper hexadecimal) :
    ∀ c ∈ m.tail.head?, ¬ IsDigit (baseOf hexadecimal) c ∧ c ≠ '_' ∧ (c = '.' → m.fraction.isSome = true) := by
  intro c hc
  cases scaled : m.exponent with
  | none =>
    rw [Numeral.tail, scaled] at hc
    cases hc
  | some e =>
    obtain ⟨mark, -, -⟩ := proper.exponent e scaled
    have other {d : Char} (hd : foldCase d ≠ markOf hexadecimal) : e.mark ≠ d := fun h => hd (h ▸ mark)
    rw [Numeral.tail, scaled] at hc
    cases hc
    refine ⟨not_isDigit_of_mark mark, other ?_, fun point => absurd point (other ?_)⟩
    · cases hexadecimal <;> decide
    · cases hexadecimal <;> decide

/-- A proper numeral is read as its number. -/
theorem readBody_text {hexadecimal : Bool} {m : Numeral} (proper : m.Proper hexadecimal) :
    readBody hexadecimal m.text = m.value? hexadecimal := by
  have some_digit : m.digits.isEmpty = false := by simpa using proper.some_digit
  rw [readBody, Numeral.text, readSignificand_mantissa proper.digits proper.stop]
  dsimp only
  rw [readTail_tail proper, some_digit]
  cases hexadecimal <;> rfl

/-- A text without underscores that is read as a number is a proper numeral. -/
theorem exists_of_readBody {hexadecimal : Bool} {t : List Char} {x : Float} (plain : '_' ∉ t)
    (read : readBody hexadecimal t = some x) :
    ∃ m : Numeral, m.Proper hexadecimal ∧ t = m.text ∧ m.value? hexadecimal = some x := by
  obtain ⟨m, r, rfl, digits, stop⟩ := exists_mantissa hexadecimal plain
  have opened := read
  rw [readBody, readSignificand_mantissa digits stop] at opened
  dsimp only at opened
  split at opened
  · cases opened
  · next some_digit =>
    split at opened
    · next k tail =>
      obtain ⟨n, proper, text⟩ := exists_proper (fun h => plain (List.mem_append_right _ h)) digits
        (by simpa using some_digit) tail
      refine ⟨n, proper, text.symm, ?_⟩
      rw [← readBody_text proper, text, read]
    · cases opened

end Gapscript.Number
