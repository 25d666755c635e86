import Gapscript.Proofs.Reading.Legible
import Gapscript.Proofs.Reading.Statement
import Gapscript.Proofs.Number.Spelling

/-!
# Numerals, headers and operators to the scan

The header of a declaration and the operators between operands have no quotes and brackets, so the scan passes
over them; of the header only the name has to be legible. That a life time is one that can be read leaves no
other characters in it than those of a numeral or a word, and a division is no comment because one would have
been white space.
-/

namespace Gapscript

open Lexical Cursor

/-! ## Headers of declarations -/

namespace Number

variable {x : Char} {t u : List Char}

theorem isInert_of_isNumeralChar (h : isNumeralChar x = true) : isInert x = true :=
  isInert_of h (by decide)

theorem inert_read? {r : Float} (h : read? t = some r) : ∀ x ∈ t, isInert x = true :=
  fun x hx => isInert_of_isNumeralChar ((read?_eq_some_iff.1 h).isNumeralChar x hx)

theorem inert_readInteger? {n : Int} (h : readInteger? t = some n) : ∀ x ∈ t, isInert x = true := by
  obtain ⟨sign, ds, rfl, digits, -⟩ := readInteger?_eq_some_iff.1 h
  exact List.forall_mem_append.2
    ⟨fun x hx => isInert_of_isNumeralChar (sign.isNumeralChar x hx), fun x hx => isInert_of_isDigit (digits x hx)⟩

end Number

namespace Text

variable {t : Text}

/-- What is trimmed from a text is white space. -/
theorem mem_trim_or {x : Char} (hx : x ∈ t) : isBlank x = true ∨ x ∈ trim t := by
  have mem_dropWhile {u : Text} (hx : x ∈ u) : isBlank x = true ∨ x ∈ u.dropWhile isBlank := by
    rw [← List.takeWhile_append_dropWhile (p := isBlank) (l := u), List.mem_append] at hx
    exact hx.imp_left (List.all_eq_true.1 List.all_takeWhile x)
  rcases mem_dropWhile hx with blank | rest
  · exact .inl blank
  · rw [trim, dropEnd, List.mem_reverse]
    exact mem_dropWhile (List.mem_reverse.2 rest)

theorem inert_of_trim (h : ∀ x ∈ trim t, isInert x = true) : ∀ x ∈ t, isInert x = true :=
  fun x hx => (mem_trim_or hx).elim isInert_of_isBlank (h x)

end Text

theorem LifeTime.inert_ofText {t : Text} {life : LifeTime} (h : ofText t = .ok life) :
    ∀ x ∈ t, isInert x = true := by
  unfold ofText at h
  dsimp only at h
  split at h
  · next unlimited =>
    subst unlimited
    exact List.all_eq_true.1 (show inertName "Infinity" = true by decide)
  · split at h
    · next seconds =>
      split at h
      · cases h
      · next read =>
        obtain ⟨u, rfl⟩ := List.getLast?_eq_some_iff.1 seconds
        rw [List.dropLast_concat] at read
        have digits := Text.inert_of_trim (Number.inert_read? read)
        intro x hx
        rcases List.mem_append.1 hx with hx | hx
        · exact digits x hx
        · cases List.mem_singleton.1 hx
          rfl
    · split at h
      · cases h
      · next read => exact Number.inert_readInteger? read

namespace Cursor

variable {c d e : Cursor} {x : Char} {t u : Text} {p : Position}

theorem even_lifeTimeParse {life : LifeTime} (h : LifeTime.parse c = .ok (life, d)) : c.Even d := by
  unfold LifeTime.parse at h
  dsimp only at h
  split at h
  · next t angle =>
    generalize between : t.takeWhile (· != '>') = body at h
    split at h
    · cases h
    · next ended =>
      split at h
      · next read =>
        cases h
        obtain ⟨u, rfl⟩ := Text.exists_of_takeWhile between ended
        have inert := Text.inert_of_trim (LifeTime.inert_ofText read)
        refine even_skip fun x hx => ?_
        rw [angle, List.take_succ_cons, List.take_append, List.take_of_length_le (Nat.le_succ _),
          Nat.add_sub_cancel_left] at hx
        rcases List.mem_cons.1 hx with rfl | hx
        · rfl
        · rcases List.mem_append.1 hx with hx | hx
          · exact inert x hx
          · cases List.mem_singleton.1 hx
            rfl
      · cases h
  · cases h

theorem even_lifeTime {life : LifeTime} (h : lifeTime c = .ok (life, d)) : c.Even d := by
  unfold lifeTime at h
  split at h
  · cases read : LifeTime.parse c with
    | error e => rw [read] at h; cases h
    | ok r =>
      rw [read] at h
      cases h
      exact (even_lifeTimeParse read).trans (even_skipGap _)
  · cases h
    exact .refl _

theorem even_qualifier {isConst : Bool} (h : qualifier c = .ok (isConst, d)) : c.Even d := by
  unfold qualifier at h
  split at h
  · cases h
  · next e word =>
    dsimp only [measureGap] at h
    split at h
    · cases h
    · next same =>
      cases same
      cases h
      exact (even_firstWord? (by decide) word).trans (even_skipGap e)

theorem even_assignSign? (h : assignSign? c = some d) : c.Even d := by
  unfold assignSign? at h
  split at h
  · cases h
  · cases h
  · next equals =>
    cases h
    exact even_next (by rw [equals]; rintro _ ⟨⟩; rfl)
  · cases h

theorem even_declarationHeader {header : Header} (h : declarationHeader c = .ok (header, d))
    (legible : inertName header.name = true) : c.Even d := by
  unfold declarationHeader at h
  cases h₁ : qualifier c with
  | error e => rw [h₁] at h; cases h
  | ok r₁ =>
  cases h₂ : qualifier r₁.2 with
  | error e => simp only [h₁, h₂, bind, Except.bind] at h; cases h
  | ok r₂ =>
  cases h₃ : bindingName r₂.2 with
  | error e => simp only [h₁, h₂, h₃, bind, Except.bind] at h; cases h
  | ok r₃ =>
  cases h₄ : lifeTime (skipGap r₃.2) with
  | error e => simp only [h₁, h₂, h₃, h₄, bind, Except.bind] at h; cases h
  | ok r₄ =>
    simp only [h₁, h₂, h₃, h₄, bind, Except.bind] at h
    split at h
    · cases h
    · next sign =>
      cases h
      have named := ((even_qualifier h₁).trans (even_qualifier h₂)).trans (even_bindingName h₃ legible)
      have lived := (named.trans (even_skipGap _)).trans (even_lifeTime h₄)
      exact (lived.trans (even_assignSign? sign)).trans (even_skipGap _)

/-! ## Operators -/

theorem even_startsWith {token : String} (inert : inertName token = true)
    (here : c.startsWith token = true) : c.Even (c.skip token.length) :=
  even_consume? inert (by rw [consume?, if_pos here])

theorem even_slash (apart : t.head? ≠ some '/') : Even ⟨'/' :: t, p⟩ ⟨t, p.after '/'⟩ :=
  fun _ => hoistsAt_plain rfl (fun _ => apart) fun _ => rfl

theorem even_notEqual : Even ⟨'!' :: '=' :: t, p⟩ ⟨'=' :: t, p.after '!'⟩ :=
  fun _ => hoistsAt_plain rfl (fun same => absurd same (by decide)) fun _ => rfl

/-- Where no comment starts, the slash of a division stands by itself. -/
theorem even_operator {op : BinaryOp} (here : gap c.rest = 0) (h : binaryOperator c = .ok (op, d)) : c.Even d := by
  unfold binaryOperator at h
  split at h
  · cases h
  · next op found =>
    dsimp only at h
    split at h
    · cases h
    · cases h
      have starts := List.find?_some found
      cases op with
      | div =>
        obtain ⟨t, p, rfl⟩ := exists_of_startsWith (u := ['/']) rfl starts
        refine even_slash fun slash => ?_
        have ahead : t.head? = some '/' := slash
        rw [List.singleton_append, gap, gapFrom, if_neg (by decide), ahead] at here
        cases here
      | notEqual =>
        obtain ⟨t, p, rfl⟩ := exists_of_startsWith (u := ['!', '=']) rfl starts
        exact even_notEqual.trans (even_inert rfl)
      | strictNotEqual =>
        obtain ⟨t, p, rfl⟩ := exists_of_startsWith (u := ['!', '=', '=']) rfl starts
        exact even_notEqual.trans ((even_inert rfl).trans (even_inert rfl))
      | add | sub | mul | mod | pow | equal | strictEqual | less | greater | lessEqual | greaterEqual | and | or =>
        exact even_startsWith (by decide) starts

theorem even_assignMode {mode : AssignMode} (h : assignMode c = .ok (mode, d)) : c.Even d := by
  unfold assignMode at h
  split at h
  · next sign =>
    cases h
    exact even_assignSign? sign
  · split at h
    · next sign _ found =>
      cases h
      have starts := List.find?_some found
      have known := List.mem_of_find?_eq_some found
      simp only [assignSigns, List.mem_cons, List.not_mem_nil, or_false, Prod.mk.injEq] at known
      rcases known with ⟨rfl, -⟩ | ⟨rfl, -⟩ | ⟨rfl, -⟩ | ⟨rfl, -⟩ | ⟨rfl, -⟩ | ⟨rfl, -⟩ | ⟨rfl, -⟩ | ⟨rfl, -⟩
      case inr.inr.inr.inr.inr.inl =>
        obtain ⟨t, p, rfl⟩ := exists_of_startsWith (u := ['/', '=']) rfl starts
        exact (even_slash (by simp)).trans (even_inert rfl)
      all_goals exact even_startsWith (by decide) starts
    · cases h

end Cursor

/-- White space behind an operator is passed over, and the scan goes on as from there. -/
theorem runsFrom_gap (runs : List UnaryRun) {n : Nat} {t : Text} (fits : n ≤ t.length) :
    runsFrom runs n t = Prod.map id (· + n) (runsFrom runs 0 (t.drop n)) := by
  induction n generalizing t with
  | zero => rfl
  | succ n ih =>
    cases t with
    | nil => cases fits
    | cons x t =>
      rw [runsFrom, List.drop_succ_cons, ih (Nat.le_of_succ_le_succ fits)]
      rfl

namespace Cursor

variable {c d : Cursor}

theorem even_runsFrom (runs : List UnaryRun) {n : Nat} (c : Cursor) (short : c.rest.length < n) :
    c.Even (c.skip (runsFrom runs 0 c.rest).2) := by
  induction n generalizing runs c with
  | zero => cases short
  | succ n ih =>
    obtain ⟨t, p⟩ := c
    cases t with
    | nil => exact .refl _
    | cons x t =>
      rw [runsFrom]
      split
      · exact .refl _
      · next op known =>
        have inert : isInert x = true :=
          isInert_of (P := fun x => (unaryOfChar? x).isSome) (by rw [known]; rfl) (by decide)
        have behind := (even_inert (t := t) (p := p) inert).trans (even_skipGap ⟨t, p.after x⟩)
        have shorter : (skipGap ⟨t, p.after x⟩).rest.length < n :=
          Nat.lt_of_le_of_lt (reaches_skipGap ⟨t, p.after x⟩).length_le (Nat.lt_of_succ_lt_succ short)
        have more := ih (UnaryRun.extend op (gap t) runs) _ shorter
        dsimp only
        rw [skip_succ, next_cons, runsFrom_gap _ (gap_le_length t), Prod.map_snd, Nat.add_comm, ← skip_skip]
        refine behind.trans ?_
        rw [skipGap, rest_skip] at more
        exact more

theorem even_unaryRuns {runs : List UnaryRun} (h : unaryRuns c = (runs, d)) : c.Even d := by
  cases h
  exact even_runsFrom [] c (Nat.lt_succ_self _)

end Cursor

end Gapscript
