import Gapscript.Run.Eval
import Gapscript.Proofs.Number.Shortest
import Mathlib

/-!
# Property keys

A number addresses the property that its whole part is written as, and a text that spells a whole number addresses
what that number does. The text of a finite number is read back as the number (`textKey_integerKey`), so a key
addresses itself (`textKey_textKey`, `textKey_propertyKey`). An integer is its own key unless the number nearest to it
is written with other digits (`textKey_toString_iff`).
-/

namespace Gapscript

open Number

/-! ## Keys of numbers -/

theorem write_congr {x y : Float} (h : view x = view y) (f : Style) : write f x = write f y := by
  unfold write
  rw [h]

/-- The key of a finite number is zero, or the digits of an integer in the interval of its whole part. -/
theorem integerKey_finite {x : Float} (finite : isFinite x = true) :
    integerKey x = "0" ∨
      ∃ negative m e n, Whole m e ∧ (Interval.of m e).contains n 0 = true ∧
        integerKey x = write key (withSign negative (compose m e)) ∧
        (integerKey x).toList = (signOf negative).text ++ Nat.toDigits 10 n := by
  rcases truncate_finite finite with ⟨negative, zero⟩ | ⟨negative, m, e, whole, parts⟩
  · left
    unfold integerKey
    rw [zero]
    exact if_pos (withSign_zero negative)
  · right
    obtain ⟨n, inside, text⟩ := write_whole parts whole
    have other : (truncate x == 0) = false := ne_zero_of_view parts (by have := whole.least; omega)
    have written : integerKey x = write key (truncate x) := by
      unfold integerKey
      dsimp only
      rw [other]
      rfl
    refine ⟨negative, m, e, n, whole, inside, ?_, by rw [written, text]⟩
    rw [written, write_congr (parts.trans (whole.view_compose negative).symm)]

/-- The key of a whole number is that number. -/
theorem integerKey_compose {m : Nat} {e : Int} (h : Whole m e) (negative : Bool) :
    integerKey (withSign negative (compose m e)) = write key (withSign negative (compose m e)) := by
  have other := ne_zero_of_view (h.view_compose negative) (by have := h.least; omega)
  unfold integerKey
  rw [h.truncate_compose]
  dsimp only
  rw [other]
  rfl

/-! ## Keys of texts -/

theorem textKey_none {s : String} (h : read? s.toList = none) : textKey s = s := by
  unfold textKey
  rw [h]

/-- No integer is written with the letter of an exponent. -/
theorem any_exponent_integer (sign : Sign) (n : Nat) :
    (sign.text ++ Nat.toDigits 10 n).any (fun c => c == 'e' || c == 'E') = false := by
  rw [List.any_append, Bool.or_eq_false_iff]
  refine ⟨by cases sign <;> decide, List.any_eq_false.2 fun c hc => ?_⟩
  have digit := isDigit_toDigits c hc
  rw [Bool.or_eq_true, beq_iff_eq, beq_iff_eq]
  rintro (rfl | rfl)
  · exact absurd digit (by decide)
  · exact absurd digit (by decide)

/-- An integer addresses what the number nearest to it addresses. -/
theorem textKey_integer {s : String} {sign : Sign} {n : Nat} (text : s.toList = sign.text ++ Nat.toDigits 10 n)
    {x : Float} (read : read? s.toList = some x) (whole : truncate x = x) (number : (x == x) = true) :
    textKey s = integerKey x := by
  have plain := any_exponent_integer sign n
  rw [← text] at plain
  unfold textKey
  rw [read]
  dsimp only
  rw [whole, number, plain]
  rfl

/-- Zero is its own key. -/
theorem textKey_zero : textKey "0" = "0" := by decide +kernel

/-- The key of a finite number addresses the same property as a text. -/
theorem textKey_integerKey {x : Float} (finite : isFinite x = true) : textKey (integerKey x) = integerKey x := by
  rcases integerKey_finite finite with zero | ⟨negative, m, e, n, whole, inside, written, text⟩
  · rw [zero, textKey_zero]
  · have read := read?_of_contains whole inside negative
    rw [← text] at read
    rw [textKey_integer text read (whole.truncate_compose negative) (beq_self_of_view (whole.view_compose negative)),
      integerKey_compose whole, written]

/-- The key of a text addresses the same property as the text. -/
theorem textKey_textKey (s : String) : textKey (textKey s) = textKey s := by
  cases read : read? s.toList with
  | none =>
    have same := textKey_none read
    rw [same, same]
  | some x =>
    have opened : textKey s = if (x == truncate x && !s.toList.any fun c => c == 'e' || c == 'E') = true
        then integerKey x else s := by
      rw [textKey, read]
    rw [opened]
    split
    · rcases finite_or_word (read?_eq_some_iff.1 read) with finite | ⟨negative, rfl⟩ | rfl
      · exact textKey_integerKey finite
      · cases negative <;> rfl
      · rfl
    · next other => rw [opened, if_neg other]

/-! ## Integers -/

/-- An integer is kept as a key if the number nearest to it is written with its digits, or if it is beyond all
finite numbers. -/
def IntegerKept (n : Int) : Prop := ∀ x, Spells (toString n).toList x → integerKey x = toString n

theorem toList_toString (n : Int) :
    (toString n).toList = (signOf (n < 0)).text ++ Nat.toDigits 10 n.natAbs := by
  cases n with
  | ofNat n =>
    have positive : ¬ (n : Int) < 0 := by omega
    simp [signOf, Sign.text, toString, Int.repr, Nat.toList_repr, positive]
  | negSucc n => simp [signOf, Sign.text, toString, Int.repr, Nat.toList_repr]

/-- An integer that is not beyond all finite numbers addresses what the number nearest to it addresses. -/
theorem textKey_toString {n : Int} {x : Float} (spells : Spells (toString n).toList x) :
    textKey (toString n) = integerKey x := by
  have read := read?_eq_some_iff.2 spells
  have text := toList_toString n
  obtain ⟨y, near, rfl⟩ : ∃ y, ofDecimal? n.natAbs 0 = some y ∧ withSign (signOf (n < 0)).negative y = x := by
    rw [text, read?_integer] at read
    exact Option.map_eq_some_iff.1 read
  rcases Nat.eq_zero_or_pos n.natAbs with zero | pos
  · rw [zero] at near
    cases near
    rw [Int.natAbs_eq_zero.1 zero]
    decide +kernel
  · rw [ofDecimal?_units pos] at near
    split at near
    · obtain ⟨m, e, whole, rfl⟩ := exists_whole_of_ofRatio? pos near
      exact textKey_integer text read (whole.truncate_compose _) (beq_self_of_view (whole.view_compose _))
    · cases near

/-- An integer is its own key exactly if it is kept. -/
theorem textKey_toString_iff (n : Int) : textKey (toString n) = toString n ↔ IntegerKept n := by
  constructor
  · intro same x spells
    rw [← textKey_toString spells, same]
  · intro kept
    cases read : read? (toString n).toList with
    | none => exact textKey_none read
    | some x =>
      have spells := read?_eq_some_iff.1 read
      rw [textKey_toString spells, kept x spells]

/-- Every integer below `2 ^ 53` is kept. -/
theorem integerKept_of_small {n : Int} (small : n.natAbs < 2 ^ 53) : IntegerKept n := by
  rw [← textKey_toString_iff]
  rcases Nat.eq_zero_or_pos n.natAbs with zero | pos
  · rw [Int.natAbs_eq_zero.1 zero]
    exact textKey_zero
  · obtain ⟨m, e, whole, short, value⟩ := exists_whole_of_small pos small
    have text := toList_toString n
    have read := read?_of_contains whole (whole.contains_value value) (n < 0)
    rw [← text] at read
    obtain ⟨k, inside, written⟩ := write_whole (whole.view_compose (n < 0)) whole
    rw [textKey_integer text read (whole.truncate_compose _) (beq_self_of_view (whole.view_compose _)),
      integerKey_compose whole, ← String.toList_inj, written, text,
      whole.eq_of_contains short inside (whole.contains_value value)]

/-! ## Keys of values -/

/-- A text with a character that numerals are not written with is its own key. -/
theorem textKey_of_mem {s : String} {c : Char} (hc : c ∈ s.toList) (other : isNumeralChar c = false) :
    textKey s = s := by
  refine textKey_none ?_
  cases read : read? s.toList with
  | none => rfl
  | some x =>
    have numeral := (read?_eq_some_iff.1 read).isNumeralChar c hc
    rw [other] at numeral
    cases numeral

/-- The text of an object begins with a bracket or a brace. -/
theorem textKey_displayNested (h : Heap) (depth : Nat) (path : List Nat) (ref : Nat) :
    textKey (h.displayNested depth path (.object ref)) = h.displayNested depth path (.object ref) := by
  cases depth with
  | zero => exact textKey_of_mem (s := "[circular]") (c := '[') (by decide) (by decide)
  | succ depth =>
    rw [Heap.displayNested]
    dsimp only
    split
    · exact textKey_of_mem (c := '[') (by decide) (by decide)
    · split
      · exact textKey_of_mem (c := '[') (by simp) (by decide)
      · exact textKey_of_mem (c := '\x7b') (by simp) (by decide)

theorem textKey_describe (f : Function) : textKey f.describe = f.describe := by
  unfold Function.describe
  split
  · exact textKey_of_mem (c := '[') (by decide) (by decide)
  · exact textKey_of_mem (c := '[') (by simp) (by decide)

/-- The key of a value addresses the same property as a text: that of no infinite number, and that of a big
integer if the integer is kept. -/
def Value.KeepsKey : Value → Prop
  | .number x => isInfinite x = false
  | .bigint n => IntegerKept n
  | _ => True

theorem textKey_number (h : Heap) (x : Float) :
    textKey (h.propertyKey (.number x)) = h.propertyKey (.number x) ↔ isInfinite x = false := by
  unfold Heap.propertyKey isInfinite
  dsimp only
  cases parts : view x with
  | finite negative m e =>
    have finite := isFinite_of_view parts
    rw [if_pos finite]
    exact iff_of_true (textKey_integerKey finite) rfl
  | nan =>
    have kept : textKey "NaN" = "NaN" := rfl
    rw [isFinite, write, parts]
    exact iff_of_true kept rfl
  | infinite negative =>
    -- The words for infinity are read as numbers, and numbers are written as keys in another way.
    have key : textKey "Infinity" = "+Inf" ∧ textKey "-Infinity" = "-Inf" := ⟨rfl, rfl⟩
    have moved : textKey "Infinity" ≠ "Infinity" ∧ textKey "-Infinity" ≠ "-Infinity" := by
      rw [key.1, key.2]
      decide
    rw [isFinite, write, parts]
    cases negative with
    | false => exact iff_of_false moved.1 (by simp)
    | true => exact iff_of_false moved.2 (by simp)

theorem textKey_propertyKey (h : Heap) (v : Value) :
    textKey (h.propertyKey v) = h.propertyKey v ↔ v.KeepsKey := by
  cases v with
  | number x => exact textKey_number h x
  | bigint n => exact textKey_toString_iff n
  | string s => exact iff_of_true (textKey_textKey s) trivial
  | object ref => exact iff_of_true (textKey_displayNested h _ _ ref) trivial
  | function f => exact iff_of_true (textKey_describe f.code) trivial
  | undefined => exact iff_of_true (textKey_of_mem (s := "undefined") (c := 'u') (by decide) (by decide)) trivial
  | null => exact iff_of_true (textKey_of_mem (s := "null") (c := 'u') (by decide) (by decide)) trivial
  | boolean b =>
    cases b with
    | false => exact iff_of_true (textKey_of_mem (s := "false") (c := 's') (by decide) (by decide)) trivial
    | true => exact iff_of_true (textKey_of_mem (s := "true") (c := 'u') (by decide) (by decide)) trivial
  | symbol s =>
    exact iff_of_true
      (textKey_of_mem (s := "Symbol(" ++ s.description ++ ")") (c := 'S') (by simp) (by decide)) trivial

/-! ## Texts in brackets -/

/-- The text spells a whole number, or an infinite one, without the letter of an exponent. -/
def SpellsWhole (s : String) : Prop :=
  ∃ x, Spells s.toList x ∧ (x == truncate x) = true ∧ 'e' ∉ s.toList ∧ 'E' ∉ s.toList

/-- A text that spells no whole number is its own key. -/
theorem textKey_of_not_spellsWhole {s : String} (h : ¬ SpellsWhole s) : textKey s = s := by
  cases read : read? s.toList with
  | none => exact textKey_none read
  | some x =>
    unfold textKey
    rw [read]
    refine if_neg fun whole => h ⟨x, read?_eq_some_iff.1 read, ?_⟩
    rw [Bool.and_eq_true, Bool.not_eq_true', List.any_eq_false] at whole
    refine ⟨whole.1, fun there => ?_, fun there => ?_⟩
    · exact whole.2 _ there (by decide)
    · exact whole.2 _ there (by decide)

/-- What is addressed by a text in brackets. The key of a value addresses the same property as a text, but for the
infinite numbers and the big integers that are not kept. A text that spells no whole number is its own key. An
integer addresses what the number nearest to it addresses, and is its own key exactly if it is kept, as every one
below `2 ^ 53` is. What is its own key names the same property in brackets and behind a dot. -/
theorem property_keys_canonical (h : Heap) :
    (∀ v : Value, h.propertyKey (.string (h.propertyKey v)) = h.propertyKey v ↔ v.KeepsKey) ∧
    (∀ s : String, ¬ SpellsWhole s → h.propertyKey (.string s) = s) ∧
    (∀ n : Int, (∀ x, Spells (toString n).toList x → h.propertyKey (.string (toString n)) = integerKey x) ∧
      (h.propertyKey (.string (toString n)) = toString n ↔ IntegerKept n) ∧
      (n.natAbs < 2 ^ 53 → IntegerKept n)) ∧
    ∀ (host : Host) (inner : Inner) (index : Expr) (s t : State) (name : String),
      eval host inner index s = .ok (.string name) t →
        (evalKey host inner (.index index) s = evalKey host inner (.dot name) t ↔
          h.propertyKey (.string name) = name) := by
  refine ⟨textKey_propertyKey h, fun s => textKey_of_not_spellsWhole,
    fun n => ⟨fun x => textKey_toString, textKey_toString_iff n, integerKept_of_small⟩,
    fun host inner index s t name ran => ?_⟩
  have addressed : evalKey host inner (.index index) s = .ok (h.propertyKey (.string name)) t := by
    rw [evalKey]
    show EStateM.bind (eval host inner index) _ s = _
    rw [EStateM.bind, ran]
    rfl
  have named : evalKey host inner (.dot name) t = .ok name t := rfl
  rw [addressed, named]
  constructor
  · intro same
    exact (EStateM.Result.ok.inj same).1
  · intro same
    rw [same]

/-- A negative integer is its own key, and so is a name, in brackets and behind a dot. -/
theorem property_keys_canonical_name :
    Heap.propertyKey {} (.string (toString (-12 : Int))) = toString (-12 : Int) ∧
      evalKey ⟨#[], false⟩ ⟨fun _ _ => pure none, fun _ => pure .undefined⟩
          (.index (.atom (.literal (.string "name") false) [] {})) {} =
        evalKey ⟨#[], false⟩ ⟨fun _ _ => pure none, fun _ => pure .undefined⟩ (.dot "name") {} := by
  obtain ⟨-, others, integers, accessors⟩ := property_keys_canonical {}
  have unread : read? "name".toList = none := rfl
  have plain : ¬ SpellsWhole "name" := by
    rintro ⟨x, spells, -⟩
    rw [read?_eq_some_iff.2 spells] at unread
    cases unread
  refine ⟨(integers (-12)).2.1.2 ((integers (-12)).2.2 (by decide)), ?_⟩
  exact (accessors ⟨#[], false⟩ ⟨fun _ _ => pure none, fun _ => pure .undefined⟩ _ {} {} "name" rfl).2
    (others "name" plain)

/-- The word for infinity, an integer beyond `2 ^ 53` and a hexadecimal numeral address other properties than those
they spell. -/
theorem property_keys_moved :
    (Heap.propertyKey {} (.number (infinity false)) = "Infinity" ∧
      Heap.propertyKey {} (.string "Infinity") = "+Inf") ∧
    Heap.propertyKey {} (.string "9007199254740993") = "9007199254740992" ∧
    Heap.propertyKey {} (.string "0x1p4") = "16" := by
  decide +kernel

end Gapscript
