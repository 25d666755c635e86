import Gapscript.Proofs.Lexical.Nested
import Gapscript.Proofs.Reading.Notes

/-!
# What the scan for hoisted declarations passes over

The scan of a body keeps the depth of the brackets around it and whether a statement may start. What is read
between two cursors at one depth leaves it as it was (`Cursor.Even`); an object, a block or a function in a
statement ends with a brace, behind which the scan looks for a statement in vain unless a declaration stands
there (`Cursor.Skips`); and a statement leaves it where the next one may start (`Cursor.Ends`).
-/

namespace Gapscript

open Lexical

namespace Cursor

/-- The hoisted declarations that the scan finds from a cursor on, at some depth of brackets. -/
def hoistsAt (c : Cursor) (depth : Nat) (atStart : Bool) : List Hoist :=
  hoistsFrom depth atStart 0 c.pos c.rest

/-- The scan finds the same from either cursor, at any depth. -/
def Even (c d : Cursor) : Prop := ∀ depth, c.hoistsAt depth false = d.hoistsAt depth false

/-- The scan finds the same from either cursor, unless a hoisted declaration outside of brackets follows. -/
def Skips (c d : Cursor) : Prop :=
  ∀ depth, (depth = 0 → hoistAt? (skipGap d) = none) → c.hoistsAt depth false = d.hoistsAt depth false

/-- The scan passes from the one cursor to the other, which stands behind a closing brace. -/
def Closes (c d : Cursor) : Prop := ∀ depth, c.hoistsAt depth false = d.hoistsAt depth (depth == 0)

/-- The scan finds from the first cursor what it finds from the second where a statement may start. -/
def Ends (c d : Cursor) : Prop := c.hoistsAt 0 false = d.hoistsAt 0 true

variable {c d e : Cursor}

theorem Even.refl (c : Cursor) : c.Even c := fun _ => rfl

theorem Even.trans (h : c.Even d) (k : d.Even e) : c.Even e := fun depth => (h depth).trans (k depth)

theorem Even.skips (h : c.Even d) : c.Skips d := fun depth _ => h depth

theorem Even.then (h : c.Even d) (k : d.Skips e) : c.Skips e := fun depth clear => (h depth).trans (k depth clear)

theorem Even.closes (h : c.Even d) (k : d.Closes e) : c.Closes e := fun depth => (h depth).trans (k depth)

theorem Closes.ends (h : c.Closes d) : c.Ends d := h 0

theorem Even.ends (h : c.Even d) (k : d.Ends e) : c.Ends e := (h 0).trans k

theorem Skips.even (h : c.Skips d) (clear : hoistAt? (skipGap d) = none) : c.Even d :=
  fun depth => h depth fun _ => clear

end Cursor

theorem hoistsFrom_eq_hoistsAt (depth : Nat) (atStart : Bool) (n : Nat) (c : Cursor) :
    hoistsFrom depth atStart n c.pos c.rest = (c.skip n).hoistsAt depth atStart := by
  induction n generalizing c with
  | zero => rfl
  | succ n ih =>
    obtain ⟨t, p⟩ := c
    cases t with
    | nil => rw [Cursor.skip_succ, Cursor.next_nil, ← ih, hoistsFrom, hoistsFrom]
    | cons x xs => rw [Cursor.skip_succ, Cursor.next_cons, ← ih, hoistsFrom]

namespace Cursor

variable {c d e : Cursor} {x : Char} {t u : Text} {p : Position}

theorem hoistsAt_nil (depth : Nat) (atStart : Bool) (p : Position) : hoistsAt ⟨[], p⟩ depth atStart = [] := by
  rw [hoistsAt, hoistsFrom]

/-! ## Steps of the scan -/

theorem hoistsFrom_hidden {n : Nat} (hidden : hiddenOrComment? (x :: t) = some n) (depth : Nat) (p : Position) :
    hoistsFrom depth false 0 p (x :: t) = hoistsFrom depth false (n - 1) (p.after x) t := by
  rw [hoistsFrom, Bool.false_and, if_neg Bool.false_ne_true, if_neg Bool.false_ne_true, List.nil_append, hidden]

/-- The scan passes over a piece that hides what is in it. -/
theorem even_hidden {n : Nat} (hidden : hiddenOrComment? c.rest = some n) (something : 0 < n) :
    c.Even (c.skip n) := by
  intro depth
  obtain ⟨t, p⟩ := c
  obtain ⟨n, rfl⟩ : ∃ m, n = m + 1 := ⟨n - 1, by omega⟩
  cases t with
  | nil => cases hidden
  | cons x t => exact (hoistsFrom_hidden hidden depth p).trans (hoistsFrom_eq_hoistsAt depth false n ⟨t, p.after x⟩)

/-- A character of which the scan takes note by itself. -/
theorem hoistsAt_single (single : hiddenOrComment? (x :: t) = none) (depth : Nat) :
    hoistsAt ⟨x :: t, p⟩ depth false =
      if opensBracket x then hoistsAt ⟨t, p.after x⟩ (depth + 1) false
      else if closesBracket x then hoistsAt ⟨t, p.after x⟩ (depth - 1) (depth ≤ 1 && x == '\x7d')
      else hoistsAt ⟨t, p.after x⟩ depth (depth == 0 && Terminator.statement (x :: t)) := by
  rw [hoistsAt, hoistsFrom, Bool.false_and, if_neg Bool.false_ne_true, if_neg Bool.false_ne_true,
    List.nil_append, single]
  rfl

theorem hoistsAt_opens (single : hiddenOrComment? (x :: t) = none) (opens : opensBracket x = true) (depth : Nat) :
    hoistsAt ⟨x :: t, p⟩ depth false = hoistsAt ⟨t, p.after x⟩ (depth + 1) false := by
  rw [hoistsAt_single single, if_pos opens]

theorem hoistsAt_closes (single : hiddenOrComment? (x :: t) = none) (closes : closesBracket x = true)
    (depth : Nat) : hoistsAt ⟨x :: t, p⟩ depth false =
      hoistsAt ⟨t, p.after x⟩ (depth - 1) (depth ≤ 1 && x == '\x7d') := by
  have opens : opensBracket x = false := by
    rw [closesBracket, Bool.or_eq_true, beq_iff_eq, beq_iff_eq] at closes
    rcases closes with rfl | rfl <;> decide
  rw [hoistsAt_single single, opens, if_neg Bool.false_ne_true, if_pos closes]

/-- Within other brackets no statement starts behind one that closes. -/
theorem hoistsAt_closes_inner (single : hiddenOrComment? (x :: t) = none) (closes : closesBracket x = true)
    {depth : Nat} (inner : 1 < depth) :
    hoistsAt ⟨x :: t, p⟩ depth false = hoistsAt ⟨t, p.after x⟩ (depth - 1) false := by
  rw [hoistsAt_closes single closes, decide_eq_false (Nat.not_le.2 inner), Bool.false_and]

theorem hoistsAt_step (single : hiddenOrComment? (x :: t) = none) (opens : opensBracket x = false)
    (closes : closesBracket x = false) {depth : Nat}
    (quiet : depth = 0 → Terminator.statement (x :: t) = false) :
    hoistsAt ⟨x :: t, p⟩ depth false = hoistsAt ⟨t, p.after x⟩ depth false := by
  have stays : (depth == 0 && Terminator.statement (x :: t)) = false := by
    cases depth with
    | zero => rw [quiet rfl, Bool.and_false]
    | succ depth => rfl
  rw [hoistsAt_single single, opens, closes, if_neg Bool.false_ne_true, if_neg Bool.false_ne_true, stays]

end Cursor

/-! ## Characters without a meaning of their own -/

/-- The character opens or closes something, or hides what follows. -/
def Lexical.isMark (x : Char) : Bool := isQuote x || x == '\\' || opensBracket x || closesBracket x

/-- The character means nothing to the scan, whatever stands next to it. -/
def Lexical.isInert (x : Char) : Bool := !isMark x && x != '/' && x != '!' && x != '?'

/-- The word has only characters that mean nothing to the scan. -/
def Lexical.inertName (word : String) : Bool := word.toList.all isInert

theorem Lexical.startsComment_eq_false {x : Char} {t : Text} (apart : x = '/' → t.head? ≠ some '/') :
    startsComment (x :: t) = false := by
  rw [startsComment_cons, Bool.and_eq_false_iff, beq_eq_false_iff_ne, beq_eq_false_iff_ne]
  by_cases slash : x = '/'
  · exact .inr (apart slash)
  · exact .inl slash

/-- The parts of `isMark`. -/
theorem Lexical.isMark_eq_false_iff {x : Char} : isMark x = false ↔
    isQuote x = false ∧ x ≠ '\\' ∧ opensBracket x = false ∧ closesBracket x = false := by
  rw [isMark, Bool.or_eq_false_iff, Bool.or_eq_false_iff, Bool.or_eq_false_iff, beq_eq_false_iff_ne,
    and_assoc, and_assoc]

theorem Lexical.hiddenOrComment?_eq_none {x : Char} {t : Text} (plain : isMark x = false)
    (apart : x = '/' → t.head? ≠ some '/') : hiddenOrComment? (x :: t) = none := by
  obtain ⟨quote, escape, -⟩ := isMark_eq_false_iff.1 plain
  rw [hiddenOrComment?, startsComment_eq_false apart, if_neg Bool.false_ne_true, hidden?_cons escape,
    quotedLength?_plain (Bool.eq_false_iff.1 quote)]

theorem Terminator.statement_eq_false {x : Char} {t : Text} (mark : x ≠ '!') (question : x ≠ '?') :
    Terminator.statement (x :: t) = false := by
  unfold Terminator.statement
  split
  · next same => exact absurd (List.cons.inj same).1 question
  · rfl
  · next same => exact absurd (List.cons.inj same).1 mark
  · rfl

namespace Cursor

variable {c d e : Cursor} {x : Char} {t u : Text} {p : Position}

/-- The scan passes over a character that is no mark, starts no comment and ends no statement. -/
theorem hoistsAt_plain (plain : isMark x = false) (apart : x = '/' → t.head? ≠ some '/') {depth : Nat}
    (quiet : depth = 0 → Terminator.statement (x :: t) = false) :
    hoistsAt ⟨x :: t, p⟩ depth false = hoistsAt ⟨t, p.after x⟩ depth false := by
  obtain ⟨-, -, opens, closes⟩ := isMark_eq_false_iff.1 plain
  exact hoistsAt_step (hiddenOrComment?_eq_none plain apart) opens closes quiet

theorem even_inert (inert : isInert x = true) : Even ⟨x :: t, p⟩ ⟨t, p.after x⟩ := by
  intro depth
  rw [isInert, Bool.and_eq_true, Bool.and_eq_true, Bool.and_eq_true, Bool.not_eq_true', bne_iff_ne, bne_iff_ne,
    bne_iff_ne] at inert
  obtain ⟨⟨⟨plain, slash⟩, mark⟩, question⟩ := inert
  exact hoistsAt_plain plain (fun same => absurd same slash)
    fun _ => Terminator.statement_eq_false mark question

theorem even_text (inert : ∀ x ∈ u, isInert x = true) : Even ⟨u ++ t, p⟩ ⟨t, p.afterText u⟩ := by
  induction u generalizing p with
  | nil => exact .refl _
  | cons x u ih =>
    obtain ⟨first, later⟩ := List.forall_mem_cons.1 inert
    exact (even_inert first).trans (ih later)

theorem even_skip {n : Nat} (inert : ∀ x ∈ c.rest.take n, isInert x = true) : c.Even (c.skip n) := by
  have passed := even_text (t := c.rest.drop n) (p := c.pos) inert
  rw [List.take_append_drop] at passed
  rwa [skip_eq]

theorem even_consume? {token : String} (inert : inertName token = true)
    (h : c.consume? token = some d) : c.Even d := by
  unfold consume? at h
  split at h
  · next starts =>
    cases h
    refine even_skip fun x hx => List.all_eq_true.1 inert x ?_
    rw [startsWith, List.isPrefixOf_iff_prefix, List.prefix_iff_eq_take, String.length_toList] at starts
    rwa [starts]
  · cases h

/-! ## White space -/

theorem isInert_of_isLayout (layout : isLayout x = true) : isInert x = true := by
  simp only [isLayout, Bool.or_eq_true, beq_iff_eq] at layout
  rcases layout with ((((rfl | rfl) | rfl) | rfl) | rfl) | rfl <;> decide

theorem skipGap_layout (layout : isLayout x = true) (t : Text) (p : Position) :
    skipGap ⟨x :: t, p⟩ = skipGap ⟨t, p.after x⟩ := by
  rw [skipGap, gap_of_layout layout]
  rfl

/-- Where neither white space nor a comment starts, there is nothing to skip. -/
theorem skipGap_solid (layout : isLayout x = false) (apart : x = '/' → t.head? ≠ some '/') (p : Position) :
    skipGap ⟨x :: t, p⟩ = ⟨x :: t, p⟩ := by
  have single := startsComment_eq_false apart
  rw [startsComment_cons] at single
  have none : gap (x :: t) = 0 := by
    rw [gap, gapFrom, layout, single]
    rfl
  rw [skipGap, none]
  rfl

theorem even_skipGap (c : Cursor) : c.Even (skipGap c) := by
  obtain ⟨t, p⟩ := c
  induction t generalizing p with
  | nil => exact .refl _
  | cons x t ih =>
    cases layout : isLayout x with
    | true =>
      rw [skipGap_layout layout]
      exact (even_inert (isInert_of_isLayout layout)).trans (ih (p.after x))
    | false =>
      by_cases comment : x = '/' ∧ t.head? = some '/'
      · obtain ⟨rfl, ahead⟩ := comment
        have starts : startsComment ('/' :: t) = true := by rw [startsComment_cons, ahead]; rfl
        have hidden : hiddenOrComment? ('/' :: t) = some (gap ('/' :: t)) := by rw [hiddenOrComment?, if_pos starts]
        have something : 0 < gap ('/' :: t) := by
          rw [gap, gapFrom, layout, ahead]
          exact Nat.succ_pos _
        exact even_hidden hidden something
      · rw [skipGap_solid layout fun same ahead => comment ⟨same, ahead⟩]
        exact .refl _

/-! ## Where statements start -/

/-- A declaration starts with a keyword. -/
theorem hoistAt?_eq_none (h : ∀ x ∈ c.rest.head?, x ≠ 'c' ∧ x ≠ 'v') : hoistAt? c = none := by
  have none {word : String} {y : Char} {ys : Text} (hw : word.toList = y :: ys) (hy : y = 'c' ∨ y = 'v') :
      keyword? word c = none := by
    have apart : c.startsWith word = false := by
      rw [Bool.eq_false_iff, Ne, startsWith, hw, List.isPrefixOf_iff_prefix]
      rintro ⟨t, ht⟩
      have apart := h y (by rw [← ht]; rfl)
      exact hy.elim apart.1 apart.2
    rw [keyword?, consume?, apart, if_neg Bool.false_ne_true]
  have header : declarationHeader c = .error (noMatch c "expected var or const") := by
    rw [declarationHeader, qualifier, firstWord?, none rfl (.inl rfl), firstWord?, none rfl (.inr rfl), firstWord?]
    rfl
  rw [hoistAt?, header]

/-- Where a statement may start, the scan looks for a hoisted declaration behind the white space. -/
theorem hoistsAt_start (c : Cursor) (depth : Nat) : c.hoistsAt depth true =
    (hoistAt? (skipGap c)).toList ++ (skipGap c).hoistsAt depth false := by
  have here {d : Cursor} (none : gap d.rest = 0) :
      d.hoistsAt depth true = (hoistAt? d).toList ++ d.hoistsAt depth false := by
    obtain ⟨t, p⟩ := d
    cases t with
    | nil =>
      rw [hoistsAt_nil, hoistsAt_nil, hoistAt?_eq_none (by simp)]
      rfl
    | cons x t =>
      rw [hoistsAt, hoistsAt, hoistsFrom, none, hoistsFrom]
      rfl
  have passed : c.hoistsAt depth true = (skipGap c).hoistsAt depth true := by
    obtain ⟨t, p⟩ := c
    cases t with
    | nil => rfl
    | cons x t =>
      cases space : gap (x :: t) with
      | zero => rw [skipGap, space]; rfl
      | succ n =>
        rw [hoistsAt, hoistsFrom, space, skipGap, space]
        exact hoistsFrom_eq_hoistsAt depth true n ⟨t, p.after x⟩
  rw [passed, here (gap_skipGap c)]

/-- Where no hoisted declaration follows, it makes no difference whether a statement may start. -/
theorem hoistsAt_clear (clear : hoistAt? (skipGap c) = none) (depth : Nat) (atStart : Bool) :
    c.hoistsAt depth atStart = c.hoistsAt depth false := by
  cases atStart with
  | false => rfl
  | true =>
    rw [hoistsAt_start, clear, even_skipGap c depth]
    rfl

theorem Closes.skips (h : c.Closes d) : c.Skips d := by
  intro depth clear
  rw [h]
  cases depth with
  | zero => exact hoistsAt_clear (clear rfl) 0 true
  | succ depth => rfl

/-! ## Brackets -/

theorem exists_of_startsWith {token : String} (spelled : token.toList = u) (here : c.startsWith token = true) :
    ∃ t p, c = ⟨u ++ t, p⟩ := by
  rw [startsWith, spelled, List.isPrefixOf_iff_prefix] at here
  obtain ⟨t, ht⟩ := here
  exact ⟨t, c.pos, by rw [ht]⟩

theorem consume?_singleton {token : String} (single : token.toList = [x]) (h : c.consume? token = some d) :
    ∃ t p, c = ⟨x :: t, p⟩ ∧ d = ⟨t, p.after x⟩ := by
  unfold consume? at h
  split at h
  · next starts =>
    obtain ⟨t, p, rfl⟩ := exists_of_startsWith single starts
    have length : token.length = 1 := by rw [← String.length_toList, single]; rfl
    rw [length] at h
    cases h
    exact ⟨t, p, rfl, rfl⟩
  · cases h

theorem hoistsAt_openBracket (h : c.consume? "[" = some d) (depth : Nat) :
    c.hoistsAt depth false = d.hoistsAt (depth + 1) false := by
  obtain ⟨t, p, rfl, rfl⟩ := consume?_singleton rfl h
  exact hoistsAt_single rfl depth

theorem hoistsAt_openBrace (h : c.consume? "\x7b" = some d) (depth : Nat) :
    c.hoistsAt depth false = d.hoistsAt (depth + 1) false := by
  obtain ⟨t, p, rfl, rfl⟩ := consume?_singleton rfl h
  exact hoistsAt_single rfl depth

theorem hoistsAt_closeBracket (h : c.consume? "]" = some d) (depth : Nat) :
    c.hoistsAt (depth + 1) false = d.hoistsAt depth false := by
  obtain ⟨t, p, rfl, rfl⟩ := consume?_singleton rfl h
  refine (hoistsAt_single rfl (depth + 1)).trans ?_
  exact congrArg (hoistsAt _ depth) (Bool.and_false _)

theorem hoistsAt_closeBrace (h : c.consume? "\x7d" = some d) (depth : Nat) :
    c.hoistsAt (depth + 1) false = d.hoistsAt depth (depth == 0) := by
  obtain ⟨t, p, rfl, rfl⟩ := consume?_singleton rfl h
  refine (hoistsAt_single rfl (depth + 1)).trans ?_
  refine congrArg (hoistsAt _ depth) ?_
  cases depth with
  | zero => rfl
  | succ depth => rfl

end Cursor

/-- The square brackets that a text opens are closed in it, and it closes none but `opened` others. -/
def Lexical.closesSquares (opened : Nat) : (hidden : Nat) → Text → Bool
  | _, [] => opened == 0
  | n + 1, _ :: cs => closesSquares opened n cs
  | 0, c :: cs =>
    match hiddenOrComment? (c :: cs) with
    | some n => closesSquares opened (n - 1) cs
    | none =>
      if c == '[' then closesSquares (opened + 1) 0 cs
      else if c == ']' then 0 < opened && closesSquares (opened - 1) 0 cs
      else closesSquares opened 0 cs

namespace Cursor

variable {c d e : Cursor} {x : Char} {t u : Text} {p : Position}

/-- The scan of a body passes over a block in it where it is in step with the scan for the end of the
block. -/
theorem hoistsFrom_block {T : Text} {open_ opened h : Nat} (within : 1 ≤ open_)
    (found : blockLength open_ h (u ++ '\x7d' :: T) = some u.length) (closes : closesSquares opened h u = true)
    (depth : Nat) (p : Position) :
    hoistsFrom (depth + open_ + opened) false h p (u ++ '\x7d' :: T) =
      hoistsAt ⟨T, p.afterText (u ++ ['\x7d'])⟩ depth (depth == 0) := by
  induction u generalizing open_ opened h p with
  | nil =>
    obtain ⟨rfl, last⟩ := blockLength_here found
    obtain rfl : open_ = 1 := Nat.le_antisymm last within
    rw [beq_iff_eq.1 closes]
    refine (hoistsAt_single rfl (depth + 1)).trans (congrArg (hoistsAt _ depth) ?_)
    cases depth with
    | zero => rfl
    | succ depth => rfl
  | cons c u ih =>
    cases h with
    | succ h => exact ih within (map_succ_eq_iff.1 found) closes (p.after c)
    | zero =>
      rw [List.cons_append] at found ⊢
      cases whole : hiddenOrComment? (c :: (u ++ '\x7d' :: T)) with
      | some n =>
        obtain ⟨alone, behind⟩ := hiddenOrComment?_within whole found
        rw [closesSquares, alone] at closes
        rw [hoistsFrom_hidden whole]
        exact ih within behind closes (p.after c)
      | none =>
        have alone : hiddenOrComment? (c :: u) = none :=
          hiddenOrComment?_cut_none (List.cons_ne_nil _ _) rfl whole
        rw [blockLength_single whole] at found
        rw [closesSquares, alone] at closes
        dsimp only at closes
        by_cases brace : c = '\x7b'
        · subst brace
          have next := ih (h := 0) (Nat.le_succ_of_le within) (map_succ_eq_iff.1 found) closes (p.after '\x7b')
          refine (hoistsAt_opens whole rfl (depth + open_ + opened)).trans ?_
          rw [← Nat.add_right_comm, Nat.add_assoc depth open_ 1]
          exact next
        by_cases unbrace : c = '\x7d'
        · subst unbrace
          rw [if_neg (by decide), if_pos (by decide)] at found
          split at found
          · cases found
          · next inner =>
            have next := ih (h := 0) (by omega : 1 ≤ open_ - 1) (map_succ_eq_iff.1 found) closes (p.after '\x7d')
            rw [show depth + (open_ - 1) + opened = depth + open_ + opened - 1 by omega] at next
            exact (hoistsAt_closes_inner whole rfl (by omega : 1 < depth + open_ + opened)).trans next
        by_cases bracket : c = '['
        · subst bracket
          exact (hoistsAt_opens whole rfl (depth + open_ + opened)).trans
            (ih (h := 0) within (map_succ_eq_iff.1 found) closes (p.after '['))
        by_cases unbracket : c = ']'
        · subst unbracket
          rw [if_neg (by decide), if_pos (by decide), Bool.and_eq_true, decide_eq_true_iff] at closes
          have next := ih (h := 0) within (map_succ_eq_iff.1 found) closes.2 (p.after ']')
          rw [show depth + open_ + (opened - 1) = depth + open_ + opened - 1 by omega] at next
          exact (hoistsAt_closes_inner whole rfl (by omega : 1 < depth + open_ + opened)).trans next
        · rw [if_neg (by simpa using brace), if_neg (by simpa using unbrace)] at found
          rw [if_neg (by simpa using bracket), if_neg (by simpa using unbracket)] at closes
          have opens : opensBracket c = false := by simp [opensBracket, brace, bracket]
          have shuts : closesBracket c = false := by simp [closesBracket, unbrace, unbracket]
          refine (hoistsAt_step whole opens shuts fun outer => ?_).trans
            (ih (h := 0) within (map_succ_eq_iff.1 found) closes (p.after c))
          omega

theorem closes_block {body : Cursor} (read : block c = .ok (body, d))
    (closes : closesSquares 0 0 body.rest = true) : c.Closes d := by
  obtain ⟨S, T, p, rfl, rfl, rfl, found⟩ := parts_of_block read
  intro depth
  exact (hoistsAt_single rfl depth).trans (hoistsFrom_block (Nat.le_refl 1) found closes depth _)

/-! ## Ends of statements -/

theorem hoistAt?_skipGap_eq_none (h : ∀ x ∈ c.rest.head?, x ≠ 'c' ∧ x ≠ 'v' ∧ isLayout x = false ∧ x ≠ '/') :
    hoistAt? (skipGap c) = none := by
  obtain ⟨t, p⟩ := c
  cases t with
  | nil => exact hoistAt?_eq_none (fun _ nothing => nomatch nothing)
  | cons x t =>
    obtain ⟨notConst, notVar, layout, slash⟩ := h x rfl
    rw [skipGap_solid layout fun same => absurd same slash]
    refine hoistAt?_eq_none ?_
    rintro _ ⟨⟩
    exact ⟨notConst, notVar⟩

/-- A mark that ends a statement. -/
theorem hoistsAt_terminator (ends : Terminator.statement (x :: t) = true) (p : Position) (atStart : Bool) :
    hoistAt? (skipGap ⟨x :: t, p⟩) = none ∧
      hoistsAt ⟨x :: t, p⟩ 0 atStart = hoistsAt ⟨t, p.after x⟩ 0 true := by
  have mark : x = '!' ∨ x = '?' := by
    refine Decidable.byContradiction fun other => ?_
    rw [Terminator.statement_eq_false (fun same => other (.inl same)) fun same => other (.inr same)] at ends
    cases ends
  have plain : isMark x = false ∧ x ≠ '/' ∧ x ≠ 'c' ∧ x ≠ 'v' ∧ isLayout x = false := by
    rcases mark with rfl | rfl <;> decide
  obtain ⟨plain, slash, first⟩ := plain
  have clear := hoistAt?_skipGap_eq_none (c := ⟨x :: t, p⟩) (by
    rintro y ⟨⟩
    exact ⟨first.1, first.2.1, first.2.2, slash⟩)
  obtain ⟨-, -, opens, closes⟩ := isMark_eq_false_iff.1 plain
  refine ⟨clear, (hoistsAt_clear clear 0 atStart).trans ?_⟩
  rw [hoistsAt_single (hiddenOrComment?_eq_none plain fun same => absurd same slash), opens, closes, ends]
  rfl

theorem ends_marks {t : Text} {n : Nat} (h : marks t = n + 1) (p : Position) (atStart : Bool) :
    hoistAt? (skipGap ⟨t, p⟩) = none ∧ hoistsAt ⟨t, p⟩ 0 atStart = (skip (n + 1) ⟨t, p⟩).hoistsAt 0 true := by
  fun_induction marks t generalizing n p atStart with
  | case1 => cases h
  | case2 t single ih =>
    have ends : Terminator.statement ('!' :: t) = true := by
      unfold Terminator.statement
      split
      · next same => cases same
      · next same => cases same; exact (single _ rfl).elim
      · rfl
      · next other => exact (other _ rfl).elim
    obtain ⟨clear, step⟩ := hoistsAt_terminator ends p atStart
    refine ⟨clear, step.trans ?_⟩
    cases n with
    | zero => rfl
    | succ n => exact (ih (Nat.succ.inj h) (p.after '!') true).2
  | case3 => cases h

theorem ends_statementEnd {debug : Bool} (h : statementEnd c = .ok (debug, d)) :
    hoistAt? (skipGap c) = none ∧ c.Ends d := by
  obtain ⟨t, p⟩ := c
  unfold statementEnd at h
  split at h
  · next t' same =>
    cases same
    cases h
    exact hoistsAt_terminator rfl p false
  · cases counted : marks t with
    | zero =>
      dsimp only at h
      rw [counted] at h
      cases h
    | succ n =>
      dsimp only at h
      rw [counted] at h
      cases h
      exact ends_marks counted p false

theorem ends_finish (ctx : StatementContext) (c : Cursor) :
    (ctx.finish c).Yields fun r => hoistAt? (skipGap c) = none ∧ c.Ends r.2 := by
  unfold StatementContext.finish
  dsimp only
  split
  · next closed =>
    rw [Bool.and_eq_true] at closed
    have done : (skipGap c).rest = [] := List.isEmpty_iff.1 closed.1
    have nothing (atStart : Bool) : (skipGap c).hoistsAt 0 atStart = [] := by
      rw [hoistsAt, done, hoistsFrom]
    refine Reading.yields_pure ⟨hoistAt?_eq_none (by rw [done]; simp), ?_⟩
    exact (even_skipGap c 0).trans ((nothing false).trans (nothing true).symm)
  · refine Reading.yields_ofExcept fun r hr => ?_
    obtain ⟨clear, ends⟩ := ends_statementEnd hr
    rw [skipGap_skipGap] at clear
    exact ⟨clear, (even_skipGap c).ends ends⟩

end Cursor

end Gapscript
