import Gapscript.Binding.LifeTime
import Gapscript.Proofs.Number.Finite
import Gapscript.Proofs.Text.Trim

/-!
# Life times as they are written

A life time stands in angle brackets: the word `Infinity`, a number of seconds with an `s` behind it, or a
number of lines (`LifeTime.Spells`). The reader accepts exactly these texts, and every other one is a
malformed life time at the place where the reader started (`life_times_read`). The number of seconds is any
numeral that is not below zero, so there are seconds that are no real number: the words for infinity and
NaN are numerals too (`nan_seconds_read`).
-/

namespace Gapscript

open Number

/-! ## White space -/

/-- No numeral is written with white space. -/
theorem Number.not_isBlank_of_isNumeralChar {c : Char} (h : isNumeralChar c = true) : Text.isBlank c = false := by
  refine Bool.eq_false_iff.2 fun blank => ?_
  have code : c.toNat ≤ 32 ∨ 133 ≤ c.toNat := by
    simp only [Text.isBlank, Bool.or_eq_true, Bool.and_eq_true, decide_eq_true_eq, beq_iff_eq] at blank
    omega
  have outside (first last : Char) (low : 33 ≤ first.toNat) (high : last.toNat ≤ 132) :
      ¬(first ≤ c ∧ c ≤ last) := by
    rintro ⟨above, below⟩
    have above : first.toNat ≤ c.toNat := above
    have below : c.toNat ≤ last.toNat := below
    omega
  have fold : foldCase c = c := if_neg (outside 'A' 'Z' (by decide) (by decide))
  have other : ∀ d ∈ "_.+-xpinfty".toList, c ≠ d := by
    rintro d hd rfl
    have seen : ∀ d ∈ "_.+-xpinfty".toList, Text.isBlank d = false := by decide
    rw [seen c hd] at blank
    cases blank
  have noDigit : digit? 16 c = none := by
    rw [digit?, fold]
    simp only [outside '0' '9' (by decide) (by decide),
      outside 'a' 'f' (by decide) (by decide), if_false]
    rfl
  rw [isNumeralChar, noDigit, fold] at h
  simp only [Option.isSome_none, Bool.false_or, List.contains_iff_mem] at h
  exact other c h rfl

/-! ## Life times -/

namespace LifeTime

/-- A text between angle brackets, without the white space around it, spells a life time. -/
inductive Spells : Text → LifeTime → Prop
  | forever : Spells "Infinity".toList .forever
  | seconds {t gap : Text} {x : Float} (number : Number.Spells t x)
      (blank : ∀ c ∈ gap, Text.isBlank c = true) (notBelow : ¬ x < 0) : Spells (t ++ gap ++ ['s']) (.seconds x)
  | lines (sign : Sign) {ds : Text} (digits : ∀ c ∈ ds, c.isDigit = true) (some_digit : ds ≠ [])
      (least : leastWord ≤ signed sign ds) (greatest : signed sign ds ≤ greatestWord) :
      Spells (sign.text ++ ds) (.lines (signed sign ds))

/-- The number in front of the `s` is read without the white space between them. -/
theorem trim_number {t gap : Text} {x : Float} (number : Number.Spells t x)
    (blank : ∀ c ∈ gap, Text.isBlank c = true) (first : ∀ c ∈ (t ++ gap).head?, Text.isBlank c = false) :
    Text.trim (t ++ gap) = t := by
  have last : ∀ c ∈ t.getLast?, Text.isBlank c = false :=
    fun c hc => not_isBlank_of_isNumeralChar (number.isNumeralChar c (List.mem_of_getLast? hc))
  rw [Text.trim_eq_dropEnd first, Text.dropEnd_append blank, Text.dropEnd_eq_self last]

/-- The texts that are read as life times. -/
theorem ofText_eq_ok_iff {t : Text} {life : LifeTime} (first : ∀ c ∈ t.head?, Text.isBlank c = false) :
    ofText t = .ok life ↔ Spells t life := by
  constructor
  · intro read
    unfold ofText at read
    dsimp only at read
    split at read
    · next word =>
      cases read
      rw [word]
      exact .forever
    · split at read
      · next marked =>
        obtain ⟨init, rfl⟩ := List.getLast?_eq_some_iff.1 marked
        have start : ∀ c ∈ init.head?, Text.isBlank c = false := by
          cases init with
          | nil => nofun
          | cons c init => exact first
        rw [List.dropLast_concat, Text.trim_eq_dropEnd start] at read
        obtain ⟨gap, whole, blank⟩ := Text.exists_of_dropEnd Text.isBlank init
        split at read
        · cases read
        · next x number =>
          split at read
          · cases read
          · next notBelow =>
            cases read
            rw [whole]
            exact .seconds (read?_eq_some_iff.1 number) blank notBelow
      · split at read
        · cases read
        · next n integer =>
          cases read
          obtain ⟨sign, ds, rfl, digits, some_digit, least, greatest, rfl⟩ :=
            readInteger?_eq_some_iff.1 integer
          exact .lines sign digits some_digit least greatest
  · intro spells
    unfold ofText
    dsimp only
    cases spells with
    | forever => rfl
    | seconds number blank notBelow =>
      rename_i t gap x
      have start : ∀ c ∈ (t ++ gap).head?, Text.isBlank c = false := by
        cases whole : t ++ gap with
        | nil => nofun
        | cons c u =>
          rw [whole] at first
          exact first
      have noWord : t ++ gap ++ ['s'] ≠ "Infinity".toList := by
        intro word
        have last := congrArg List.getLast? word
        rw [List.getLast?_concat] at last
        exact absurd last (by decide)
      rw [if_neg noWord, if_pos List.getLast?_concat, List.dropLast_concat, trim_number number blank start,
        read?_eq_some_iff.2 number]
      exact if_neg notBelow
    | lines sign digits some_digit least greatest =>
      rename_i ds
      have integer := readInteger?_eq_some_iff.2 ⟨sign, ds, rfl, digits, some_digit, least, greatest, rfl⟩
      -- The last character is a digit, so it is not that of the word or of seconds.
      have other {c : Char} (hc : c.isDigit = false) : (sign.text ++ ds).getLast? ≠ some c := by
        intro last
        rw [List.getLast?_append, List.getLast?_eq_some_getLast some_digit, Option.some_or] at last
        rw [digits c (by rw [← Option.some.inj last]; exact List.getLast_mem some_digit)] at hc
        cases hc
      have noWord : sign.text ++ ds ≠ "Infinity".toList := by
        intro word
        exact other (c := 'y') (by decide) (by rw [word]; decide)
      rw [if_neg noWord, if_neg (other (by decide)), integer]

/-- What a life time is measured in, where it is in seconds: a number that is finite and not below zero, or
else the one of a word. -/
theorem Spells.seconds_finite {t : Text} {x : Float} (spells : Spells t (.seconds x)) :
    isFinite x = true ∧ ¬ x < 0 ∨ x = infinity false ∨ x = nan := by
  cases spells with
  | seconds number blank notBelow =>
    rcases finite_or_word number with finite | ⟨negative, rfl⟩ | rfl
    · exact .inl ⟨finite, notBelow⟩
    · cases negative with
      | false => exact .inr (.inl rfl)
      | true => exact absurd (show infinity true < 0 by decide) notBelow
    · exact .inr (.inr rfl)

end LifeTime

/-- What is read of a life time: the text between its brackets. -/
theorem LifeTime.parse_of_close {c : Cursor} {inner behind : Text} (rest : c.rest = '<' :: inner ++ '>' :: behind)
    (open_ : '>' ∉ inner) {life : LifeTime} (read : ofText (Text.trim inner) = .ok life) :
    parse c = .ok (life, c.skip (inner.length + 2)) := by
  have body := Text.takeWhile_stop open_ behind
  have closed : ¬ inner.length = (inner ++ '>' :: behind).length := by
    rw [List.length_append, List.length_cons]
    omega
  unfold parse
  simp only [rest, List.cons_append, body, closed, if_false, read]

/-- Life times are read in the forms that they have: a text begins with one if it has an opening bracket, a
later closing one, and between them, white space aside, the word, a number of seconds that is not below zero
or a number of lines of 64 bits. It is read up to its bracket, and every other text is malformed where it
starts. Seconds are finite unless a word stands for them. -/
theorem life_times_read (c : Cursor) :
    (∀ life d, LifeTime.parse c = .ok (life, d) ↔
      ∃ inner behind, c.rest = '<' :: inner ++ '>' :: behind ∧ '>' ∉ inner ∧
        LifeTime.Spells (Text.trim inner) life ∧ d = c.skip (inner.length + 2)) ∧
    (∀ e, LifeTime.parse c = .error e → e.kind = .malformedLifeTime ∧ e.pos = some c.pos) ∧
    ∀ x d, LifeTime.parse c = .ok (.seconds x, d) →
      isFinite x = true ∧ ¬ x < 0 ∨ x = infinity false ∨ x = nan := by
  have spelled (inner : Text) (life : LifeTime) :
      LifeTime.ofText (Text.trim inner) = .ok life ↔ LifeTime.Spells (Text.trim inner) life :=
    LifeTime.ofText_eq_ok_iff fun _ hx => Text.not_isBlank_of_mem_head?_trim hx
  have accepted {life : LifeTime} {d : Cursor} (read : LifeTime.parse c = .ok (life, d)) :
      ∃ inner behind, c.rest = '<' :: inner ++ '>' :: behind ∧ '>' ∉ inner ∧
        LifeTime.Spells (Text.trim inner) life ∧ d = c.skip (inner.length + 2) := by
    unfold LifeTime.parse at read
    dsimp only at read
    split at read
    · next t rest =>
      split at read
      · cases read
      · next ended =>
        obtain ⟨behind, cut⟩ := Text.exists_of_takeWhile rfl ended
        split at read
        · next life inside =>
          cases read
          refine ⟨t.takeWhile (· != '>'), behind, by rw [rest, List.cons_append, ← cut], ?_,
            (spelled _ life).1 inside, rfl⟩
          intro close
          have before := List.all_eq_true.1 (List.all_takeWhile (p := (· != '>')) (l := t)) '>' close
          exact absurd before (by decide)
        · cases read
    · cases read
  refine ⟨fun life d => ⟨accepted, ?_⟩, ?_, ?_⟩
  · rintro ⟨inner, behind, rest, open_, spells, rfl⟩
    exact LifeTime.parse_of_close rest open_ ((spelled inner life).2 spells)
  · intro e refused
    unfold LifeTime.parse at refused
    dsimp only at refused
    split at refused
    · split at refused
      · cases refused
        exact ⟨rfl, rfl⟩
      · split at refused
        · cases refused
        · cases refused
          exact ⟨rfl, rfl⟩
    · cases refused
      exact ⟨rfl, rfl⟩
  · intro x d read
    obtain ⟨inner, behind, rest, open_, spells, -⟩ := accepted read
    exact spells.seconds_finite

/-- A number of lines with white space around it is read, and one without a closing bracket is malformed; no
seconds are finite. -/
theorem life_times_read_lines :
    LifeTime.parse ⟨"< -3 > = 1".toList, {}⟩ = .ok (.lines (-3), Cursor.skip 6 ⟨"< -3 > = 1".toList, {}⟩) ∧
    (∃ e, LifeTime.parse ⟨"<5".toList, {}⟩ = .error e ∧ e.kind = .malformedLifeTime ∧ e.pos = some {}) ∧
    ∃ x d, LifeTime.parse ⟨"<0s>".toList, {}⟩ = .ok (.seconds x, d) ∧
      (isFinite x = true ∧ ¬ x < 0 ∨ x = infinity false ∨ x = nan) := by
  have refused : LifeTime.parse ⟨"<5".toList, {}⟩ =
      .error ⟨.malformedLifeTime, "missing '>'", some {}⟩ := rfl
  have none_ : LifeTime.parse ⟨"<0s>".toList, {}⟩ =
      .ok (.seconds (Float.ofBits 0), Cursor.skip 4 ⟨"<0s>".toList, {}⟩) := rfl
  refine ⟨?_, ?_, ?_⟩
  · refine ((life_times_read _).1 _ _).2 ⟨" -3 ".toList, " = 1".toList, rfl, by decide, ?_, rfl⟩
    have digits : ∀ c ∈ ['3'], c.isDigit = true := by decide
    exact .lines .minus digits (by decide) (by decide) (by decide)
  · exact ⟨_, refused, (life_times_read _).2.1 _ refused⟩
  · exact ⟨_, _, none_, (life_times_read _).2.2 _ _ none_⟩

/-- Seconds that are no number are read: they are not below zero, so the check for that passes them. -/
theorem nan_seconds_read :
    LifeTime.parse ⟨"<NaNs>".toList, {}⟩ = .ok (.seconds nan, Cursor.skip 6 ⟨"<NaNs>".toList, {}⟩) ∧
      isFinite nan = false := by
  exact ⟨rfl, by decide⟩

end Gapscript
