import Gapscript.Proofs.Reading.Advance
import Gapscript.Proofs.Reading.Judgment

/-!
# Where trees come from

A `Source` says which names, pieces of text and values may stand in what is read: names and pieces
come from the text, values come from the bindings in force. A tree is `Sourced` if everything in it
does. Two sets of names are in `Accord` over a source if they mean the same by every name in it.
-/

namespace Gapscript

/-! ## Pieces of a text -/

namespace Cursor

/-- The other cursor stands over a piece of the text and has the place where it begins. -/
def Includes (c d : Cursor) : Prop := ∃ p q, c.rest = p ++ d.rest ++ q ∧ d.pos = c.pos.afterText p

/-- The name occurs in the text. -/
def Mentions (c : Cursor) (name : String) : Prop := name.toList <:+: c.rest

theorem Reaches.exists_text {c d : Cursor} (h : c.Reaches d) :
    ∃ p, c.rest = p ++ d.rest ∧ d.pos = c.pos.afterText p := by
  obtain ⟨n, rfl⟩ := h
  exact ⟨c.rest.take n, by rw [rest_skip, List.take_append_drop], pos_skip n c⟩

theorem Reaches.includes {c d : Cursor} (h : c.Reaches d) : c.Includes d := by
  obtain ⟨p, hp, hpos⟩ := h.exists_text
  exact ⟨p, [], by rw [hp, List.append_nil], hpos⟩

theorem Includes.trans {c d e : Cursor} (h : c.Includes d) (k : d.Includes e) : c.Includes e := by
  obtain ⟨p, q, hc, hd⟩ := h
  obtain ⟨p', q', hd', he⟩ := k
  refine ⟨p ++ p', q' ++ q, ?_, ?_⟩
  · rw [hc, hd']
    simp only [List.append_assoc]
  · rw [he, hd, Position.afterText_append]

theorem Includes.mentions {c d : Cursor} (h : c.Includes d) {name : String} (hn : d.Mentions name) :
    c.Mentions name := by
  obtain ⟨p, q, hc, -⟩ := h
  exact hn.trans ⟨p, q, hc.symm⟩

/-- A beginning of the text is a piece of it. -/
theorem includes_of_isPrefix {c : Cursor} {t : Text} (h : t <+: c.rest) : c.Includes ⟨t, c.pos⟩ := by
  obtain ⟨q, hq⟩ := h
  exact ⟨[], q, hq.symm, rfl⟩

theorem mentions_of_isPrefix {c : Cursor} {t : Text} (h : t <+: c.rest) : c.Mentions (String.ofList t) := by
  rw [Mentions, String.toList_ofList]
  exact h.isInfix

end Cursor

namespace Text

theorem dropEnd_isPrefix (p : Char → Bool) (t : Text) : dropEnd p t <+: t := by
  rw [dropEnd, ← List.reverse_suffix, List.reverse_reverse]
  exact List.dropWhile_suffix p

theorem trim_infix (t : Text) : trim t <:+: t :=
  (dropEnd_isPrefix _ _).isInfix.trans (List.dropWhile_suffix _).isInfix

theorem firstBytes?_isPrefix {n : Nat} {t u : Text} (h : firstBytes? n t = some u) : u <+: t := by
  induction t generalizing n u with
  | nil =>
    cases n with
    | zero => cases h; exact List.nil_prefix
    | succ n => cases h
  | cons c cs ih =>
    cases n with
    | zero => cases h; exact List.nil_prefix
    | succ n =>
      rw [firstBytes?] at h
      split at h
      · obtain ⟨v, hv, rfl⟩ := Option.map_eq_some_iff.1 h
        exact (List.prefix_cons_inj c).2 (ih hv)
      · cases h

end Text

open Lexical Cursor

theorem Cursor.textUntil_isPrefix (c d : Cursor) : c.textUntil d <+: c.rest := by
  unfold Cursor.textUntil
  dsimp only
  split
  · exact List.nil_prefix
  · cases h : Text.firstBytes? (d.pos.offset - c.pos.offset).toNat c.rest with
    | none => exact List.nil_prefix
    | some u => exact Text.firstBytes?_isPrefix h

/-! ## What words and brackets hold -/

theorem mentions_identifier {c d : Cursor} {term : Terminator} {name : String}
    (h : identifier term c = .ok (name, d)) : c.Mentions name := by
  unfold identifier at h
  split at h
  · cases h
  · cases h
    exact mentions_of_isPrefix (List.take_prefix _ _)

theorem mentions_bindingName {c d : Cursor} {name : String} (h : bindingName c = .ok (name, d)) :
    c.Mentions name := by
  unfold bindingName at h
  split at h
  · split at h
    · cases h
    · exact mentions_identifier h
  · exact mentions_identifier h

theorem includes_block {c body d : Cursor} (h : block c = .ok (body, d)) : c.Includes body := by
  unfold block at h
  split at h
  · cases h
  · next start hstart =>
    split at h
    · cases h
      have opened : c.Reaches start := (passes_consume? (by decide) hstart).reaches
      exact opened.includes.trans (includes_of_isPrefix (List.take_prefix _ _))
    · cases h

theorem mem_of_firstWord? {α : Type} {c d : Cursor} {a : α} {words : List (String × α)}
    (h : firstWord? c words = some (a, d)) : ∃ word, (word, a) ∈ words := by
  induction words with
  | nil => cases h
  | cons w words ih =>
    rw [firstWord?] at h
    split at h
    · cases h
      exact ⟨w.1, List.mem_cons_self⟩
    · obtain ⟨word, hmem⟩ := ih h
      exact ⟨word, List.mem_cons_of_mem _ hmem⟩

theorem isReference_numeral {t : Text} {v : Value} {n : Nat} (h : numeral t = .ok (v, n)) :
    v.isReference = false := by
  unfold numeral at h
  dsimp only at h
  split at h
  · cases h
  · split at h
    · cases h
      rfl
    · split at h
      · cases h
        rfl
      · cases h

/-- The value of a literal has no identity. -/
theorem isReference_literal {c d : Cursor} {v : Value} (h : literal c = .ok (v, d)) :
    v.isReference = false := by
  have words : ∀ w ∈ literalWords, w.2.isReference = false := by simp [literalWords, Value.isReference]
  unfold literal at h
  split at h
  · next hword =>
    cases h
    obtain ⟨word, hmem⟩ := mem_of_firstWord? hword
    exact words _ hmem
  · split at h
    · cases hq : quotedString c with
      | error e => rw [hq] at h; cases h
      | ok r =>
        rw [hq] at h
        cases h
        rfl
    · unfold number at h
      split at h
      · cases h
      · next hn =>
        dsimp only at h
        split at h
        · cases h
        · cases h
          exact isReference_numeral hn

/-! ## Sources -/

/-- What may stand in a tree: names and other texts, the cursors of bodies, and values. -/
structure Source where
  Occurs : String → Prop
  Piece : Cursor → Prop
  Holds : Value → Prop

namespace Source

/-- Everything may stand in a tree. -/
def any : Source := ⟨fun _ => True, fun _ => True, fun _ => True⟩

/-- What is in the text under the cursor may stand in a tree. -/
structure Covers (S : Source) (c : Cursor) : Prop where
  occurs : ∀ {name}, c.Mentions name → S.Occurs name
  piece : ∀ {d}, c.Includes d → S.Piece d

/-- The function was written in the source. -/
def Code (S : Source) (fn : Function) : Prop :=
  (∀ p ∈ fn.params, S.Occurs p) ∧
    ∃ text pos block, fn.body = .script text pos block ∧ S.Piece ⟨text, pos⟩

theorem covers_any (c : Cursor) : any.Covers c := ⟨fun _ => trivial, fun _ => trivial⟩

variable {S : Source} {c d : Cursor}

theorem Covers.includes (h : S.Covers c) (hd : c.Includes d) : S.Covers d :=
  ⟨fun hn => h.occurs (hd.mentions hn), fun he => h.piece (hd.trans he)⟩

theorem Covers.reaches (h : S.Covers c) (hd : c.Reaches d) : S.Covers d := h.includes hd.includes

end Source

mutual

/-- Everything in the tree comes from the source. -/
def Expr.Sourced (S : Source) : Expr → Prop
  | .atom b accs _ => b.Sourced S ∧ Accessor.AllSourced S accs
  | .unary _ e => e.Sourced S
  | .binary _ l r => l.Sourced S ∧ r.Sourced S

/-- Everything in the base comes from the source. -/
def Base.Sourced (S : Source) : Base → Prop
  | .literal v _ => S.Holds v
  | .name _ v => S.Holds v
  | .call _ fn args _ => S.Holds (.function fn) ∧ Expr.AllSourced S args
  | .object _ values => Expr.AllSourced S values
  | .array elements => Expr.AllSourced S elements
  | .function fn => S.Code fn

/-- Everything in the trees comes from the source. -/
def Expr.AllSourced (S : Source) : List Expr → Prop
  | [] => True
  | e :: es => e.Sourced S ∧ Expr.AllSourced S es

/-- Everything in the accessors comes from the source. -/
def Accessor.AllSourced (S : Source) : List Accessor → Prop
  | [] => True
  | .dot _ :: accs => Accessor.AllSourced S accs
  | .index e :: accs => e.Sourced S ∧ Accessor.AllSourced S accs

end

theorem Expr.allSourced_iff {S : Source} {es : List Expr} : AllSourced S es ↔ ∀ e ∈ es, e.Sourced S := by
  induction es with
  | nil => simp [AllSourced]
  | cons e es ih => rw [AllSourced, ih, List.forall_mem_cons]

theorem Accessor.allSourced_iff {S : Source} {accs : List Accessor} :
    AllSourced S accs ↔ ∀ e, .index e ∈ accs → e.Sourced S := by
  induction accs with
  | nil => simp [AllSourced]
  | cons acc accs ih => cases acc <;> simp [AllSourced, ih]

/-- Everything in the accessor comes from the source. -/
def Accessor.Sourced (S : Source) : Accessor → Prop
  | .dot _ => True
  | .index e => e.Sourced S

theorem Accessor.allSourced_cons {S : Source} {acc : Accessor} {accs : List Accessor} :
    AllSourced S (acc :: accs) ↔ acc.Sourced S ∧ AllSourced S accs := by
  cases acc with
  | dot name => rw [AllSourced, Accessor.Sourced, true_and]
  | index e => rw [AllSourced, Accessor.Sourced]

/-- Two sets of names mean the same by every name in the source, and give what it holds. -/
structure Names.Accord (S : Source) (names names' : Names) : Prop where
  value : ∀ {name}, S.Occurs name → names.value? name = names'.value? name
  callee : ∀ {strict name}, S.Occurs name → names.callee? strict name = names'.callee? strict name
  holds : ∀ {name v}, names.value? name = some v → S.Holds v
  callable : ∀ {strict name fn}, names.callee? strict name = some fn → S.Holds (.function fn)
  plain : ∀ {v : Value}, v.isReference = false → S.Holds v

theorem Names.accord_any (names : Names) : names.Accord Source.any names :=
  ⟨fun _ => rfl, fun _ => rfl, fun _ => trivial, fun _ => trivial, fun _ => trivial⟩

/-! ## The fold keeps what it is given -/

namespace Fold

section Closed

variable {P : Expr → Prop} (unary : ∀ op e, P e → P (.unary op e))
  (binary : ∀ op l r, P l → P r → P (.binary op l r))

include unary binary

/-- What operators preserve holds of every tree that is built from operands it holds of. -/
theorem forall_apply {p : Pending} {es : List Expr} (h : ∀ e ∈ es, P e) : ∀ e ∈ p.apply es, P e := by
  unfold Pending.apply
  split
  · rw [List.forall_mem_cons] at h ⊢
    exact ⟨unary _ _ h.1, h.2⟩
  · simp only [List.forall_mem_cons] at h ⊢
    exact ⟨binary _ _ _ h.2.1 h.1, h.2.2⟩
  · exact h

theorem forall_settle {op : BinaryOp} {width : Nat} {es : List Expr} {ps : List Pending}
    (h : ∀ e ∈ es, P e) : ∀ e ∈ (settle op width es ps).operands, P e := by
  induction ps generalizing es with
  | nil => exact h
  | cons p ps ih =>
    rw [settle]
    split
    · exact ih (forall_apply unary binary h)
    · exact h

theorem forall_finish {f : Fold} (h : ∀ e ∈ f.operands, P e) : ∀ e ∈ f.finish, P e := by
  obtain ⟨es, ps⟩ := f
  change ∀ e ∈ ps.foldl (fun es p => p.apply es) es, P e
  change ∀ e ∈ es, P e at h
  induction ps generalizing es with
  | nil => exact h
  | cons p ps ih => exact ih (p.apply es) (forall_apply unary binary h)

end Closed

/-- Every operand comes from the source. -/
def Sourced (S : Source) (f : Fold) : Prop := ∀ e ∈ f.operands, e.Sourced S

variable {S : Source}

theorem sourced_unary (op : UnaryOp) (e : Expr) (h : e.Sourced S) : (Expr.unary op e).Sourced S := by
  rw [Expr.Sourced]
  exact h

theorem sourced_binary (op : BinaryOp) (l r : Expr) (hl : l.Sourced S) (hr : r.Sourced S) :
    (Expr.binary op l r).Sourced S := by
  rw [Expr.Sourced]
  exact ⟨hl, hr⟩

theorem Sourced.pushBinary {f : Fold} (h : f.Sourced S) (op : BinaryOp) (width : Nat) :
    (f.pushBinary op width).Sourced S := forall_settle sourced_unary sourced_binary h

theorem Sourced.pushOperand {f : Fold} (h : f.Sourced S) (runs : List UnaryRun) {e : Expr}
    (he : e.Sourced S) : (f.pushOperand runs e).Sourced S := List.forall_mem_cons.2 ⟨he, h⟩

theorem Sourced.finish {f : Fold} (h : f.Sourced S) : ∀ e ∈ f.finish, e.Sourced S :=
  forall_finish sourced_unary sourced_binary h

end Fold

end Gapscript
