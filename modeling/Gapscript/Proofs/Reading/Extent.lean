import Gapscript.Proofs.Reading.Notes
import Gapscript.Proofs.Reading.Settle

/-!
# The extent of what is read

Numbers of lines are read as words, so the life time of a declaration fits one. A guard is kept with
the place where it begins and its text without the white space around it, which is no longer than the
text that begins there.
-/

namespace Gapscript

open Lexical Cursor Reading

/-! ## Life times -/

/-- A number of lines is a word. -/
def LifeTime.Fits : LifeTime → Prop
  | .lines n => Number.leastWord ≤ n ∧ n ≤ Number.greatestWord
  | _ => True

theorem Number.fits_readInteger? {t : Text} {n : Int} (h : readInteger? t = some n) :
    leastWord ≤ n ∧ n ≤ greatestWord := by
  have checked {m : Int} (h : (if leastWord ≤ m ∧ m ≤ greatestWord then some m else none) = some n) :
      leastWord ≤ n ∧ n ≤ greatestWord := by
    split at h
    · next fits =>
      cases h
      exact fits
    · cases h
  unfold readInteger? at h
  dsimp only at h
  -- Whichever way the sign is written, the number is checked after it has been applied.
  split at h
  all_goals
    dsimp only at h
    split at h
    · cases h
    · exact checked h

theorem fits_ofText {t : Text} {life : LifeTime} (h : LifeTime.ofText t = .ok life) : life.Fits := by
  unfold LifeTime.ofText at h
  dsimp only at h
  split at h
  · cases h
    trivial
  · split at h
    · split at h
      · cases h
      · split at h
        · cases h
        · cases h
          trivial
    · split at h
      · cases h
      · next hn =>
        cases h
        exact Number.fits_readInteger? hn

theorem fits_lifeTime {c d : Cursor} {life : LifeTime} (h : lifeTime c = .ok (life, d)) : life.Fits := by
  unfold lifeTime at h
  split at h
  · cases hp : LifeTime.parse c with
    | error e => rw [hp] at h; cases h
    | ok r =>
      rw [hp] at h
      cases h
      unfold LifeTime.parse at hp
      dsimp only at hp
      split at hp
      · split at hp
        · cases hp
        · split at hp
          · next hl =>
            cases hp
            exact fits_ofText hl
          · cases hp
      · cases hp
  · cases h
    trivial

theorem fits_declarationHeader {c d : Cursor} {header : Header} (h : declarationHeader c = .ok (header, d)) :
    header.life.Fits := by
  unfold declarationHeader at h
  cases h₁ : qualifier c with
  | error e => rw [h₁] at h; cases h
  | ok r₁ =>
  cases h₂ : qualifier r₁.2 with
  | error e => simp only [h₁, h₂, bind, Except.bind] at h; cases h
  | ok r₂ =>
  cases h₃ : bindingName r₂.2 with
  | error e => simp only [h₁, h₂, h₃, bind, Except.bind] at h; cases h
  | ok r₃ =>
  cases h₄ : lifeTime (skipGap r₃.2) with
  | error e => simp only [h₁, h₂, h₃, h₄, bind, Except.bind] at h; cases h
  | ok r₄ =>
    simp only [h₁, h₂, h₃, h₄, bind, Except.bind] at h
    split at h
    · cases h
    · cases h
      exact fits_lifeTime h₄

/-- A hoisted declaration starts somewhere in the text, and its life time is a negative word. -/
theorem hoisted_hoists (c : Cursor) : ∀ h ∈ hoists c,
    (∃ e, c.Reaches e ∧ h.line = e.pos.line) ∧ h.header.life.isHoisted = true ∧ h.header.life.Fits := by
  intro h hh
  obtain ⟨e, reached, found⟩ := found_hoists c h hh
  unfold hoistAt? at found
  split at found
  · next hheader =>
    split at found
    · next hoisted =>
      cases found
      exact ⟨⟨e, reached, rfl⟩, hoisted, fits_declarationHeader hheader⟩
    · cases found
  · cases found

/-! ## Guards -/

/-- The guard was read in the text under the cursor: behind white space, and up to white space in front of a
brace. Its text is what was read, without the white space of Unicode around it. -/
def Guard.ReadIn (names : Names) (c : Cursor) (g : Guard) : Prop :=
  ∃ s e l l', c.Reaches s ∧ gap s.rest = 0 ∧
    expression names (Terminator.tokens ["\x7b"]) s l = .ok (g.tree, e) l' ∧
    (skipGap e).rest.head? = some '\x7b' ∧ g.text = Text.trim (s.textUntil e) ∧ g.pos = s.pos

/-- The guard of the branch, if it has one, was read in the text. -/
def Branch.ReadIn (names : Names) (c : Cursor) (b : Branch) : Prop := ∀ g, b.guard = some g → g.ReadIn names c

theorem Branch.ReadIn.of_reaches {names : Names} {c d : Cursor} (hd : c.Reaches d) {b : Branch}
    (h : b.ReadIn names d) : b.ReadIn names c := by
  intro g hg
  obtain ⟨s, e, l, l', reached, read⟩ := h g hg
  exact ⟨s, e, l, l', hd.trans reached, read⟩

theorem head?_of_block {c body d : Cursor} (h : block c = .ok (body, d)) : c.rest.head? = some '\x7b' := by
  unfold block at h
  split at h
  · cases h
  · next start opened =>
    unfold Cursor.consume? at opened
    split at opened
    · next starts =>
      obtain ⟨t, same⟩ := List.isPrefixOf_iff_prefix.1 starts
      rw [← same]
      rfl
    · cases opened

section Branches

variable (names : Names) (word : String)

theorem yields_guarded (c : Cursor) :
    (guarded names word c).Yields fun r => r.1.ReadIn names c ∧ c.Reaches r.2 := by
  intro l r l' run
  unfold guarded at run
  cases hword : keyword? word c with
  | none =>
    rw [hword] at run
    cases run
  | some d =>
    rw [hword] at run
    have start : c.Reaches (skipGap d) := (reaches_keyword? hword).skipGap
    obtain ⟨⟨tree, e⟩, m, read, rest⟩ := ok_of_bind run
    obtain ⟨⟨body, f⟩, m', closed, last⟩ := ok_of_bind rest
    have found := ok_of_ofExcept closed
    have passed := (gives_expression names _ _).of_run_ok read
    rw [found] at closed
    cases closed
    cases last
    refine ⟨?_, (start.trans passed.reaches).skipGap.trans (passes_block found).reaches⟩
    rintro g ⟨⟩
    exact ⟨_, e, l, _, start, gap_skipGap d, read, head?_of_block found, rfl, rfl⟩

theorem yields_elseBranches (fuel : Nat) (c : Cursor) :
    (elseBranches names word fuel c).Yields fun r => ∀ b ∈ r.1, b.ReadIn names c := by
  induction fuel generalizing c with
  | zero => exact yields_throw _
  | succ fuel ih =>
    have nothing : (pure ([], c) : Reading (List Branch × Cursor)).Yields fun r => ∀ b ∈ r.1, b.ReadIn names c :=
      yields_pure fun _ hb => nomatch hb
    rw [elseBranches]
    cases helse : keyword? "else" (skipGap c) with
    | none => exact nothing
    | some d =>
      have start : c.Reaches (skipGap d) := ((reaches_skipGap c).trans (reaches_keyword? helse)).skipGap
      refine (yields_guarded names word (skipGap d)).attempt.bind fun r hr => ?_
      cases r with
      | some r =>
        obtain ⟨first, passed⟩ := hr r rfl
        refine (ih r.2).bind fun more hmore => yields_pure ?_
        have later := start.trans passed
        exact List.forall_mem_cons.2 ⟨first.of_reaches start, fun b hb => (hmore b hb).of_reaches later⟩
      | none =>
        dsimp only
        cases block (skipGap d) with
        | error e => exact nothing
        | ok r =>
          refine yields_pure (List.forall_mem_singleton.2 ?_)
          rintro g ⟨⟩

/-- Every guard was read in the text. -/
theorem yields_branches (c : Cursor) :
    (branches names word c).Yields fun r => ∀ b ∈ r.1, b.ReadIn names c := by
  refine (yields_guarded names word c).bind fun r hr => ?_
  refine (yields_elseBranches names word _ _).bind fun more hmore => yields_pure ?_
  exact List.forall_mem_cons.2 ⟨hr.1, fun b hb => (hmore b hb).of_reaches hr.2⟩

end Branches

/-- The guard begins somewhere in the text, and its own text is no longer than what begins there. -/
def Guard.Anchored (c : Cursor) (g : Guard) : Prop :=
  ∃ e, c.Reaches e ∧ g.pos = e.pos ∧ g.text.length ≤ e.rest.length

/-- The guard of the branch, if it has one, begins in the text. -/
def Branch.Anchored (c : Cursor) (b : Branch) : Prop := ∀ g, b.guard = some g → g.Anchored c

theorem Branch.ReadIn.anchored {names : Names} {c : Cursor} {b : Branch} (h : b.ReadIn names c) : b.Anchored c := by
  intro g hg
  obtain ⟨s, e, l, l', reached, -, -, -, text, pos⟩ := h g hg
  refine ⟨s, reached, pos, ?_⟩
  rw [text]
  exact Nat.le_trans (Text.trim_infix _).length_le (textUntil_isPrefix _ _).length_le

/-- The life time of a declaration fits, and the guards of a watch begin in the text. -/
def Statement.Anchored (c : Cursor) : Statement → Prop
  | .declaration h _ _ => h.life.Fits
  | .watch bs _ => ∀ b ∈ bs, b.Anchored c
  | _ => True

theorem anchored_statement {ctx : StatementContext} {c d : Cursor} {stmt : Statement}
    (h : statement ctx c = .ok (stmt, d)) : stmt.Anchored c := by
  have watches : (watchForm ctx c).Yields fun r => r.1.Anchored c := by
    refine Yields.bind (P := fun r => ∀ b ∈ r.1.1, b.Anchored c) (fun l r l' run => ?_)
      fun r hr => yields_pure hr
    unfold Reading.withNotes at run
    split at run
    · next hrun =>
      cases run
      exact fun b hb => (yields_branches ctx.names "when" c _ _ _ hrun b hb).anchored
    · cases run
  refine yields_statement (fun stmt ordinary => ?_) (fun hheader _ _ => fits_declarationHeader hheader)
    watches h
  cases stmt with
  | watch | declaration => exact ordinary.elim
  | _ => trivial

end Gapscript
