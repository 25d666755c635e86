import Gapscript.Proofs.Reading.Literal
import Gapscript.Proofs.Lexical.Boundary

/-!
# Quoted texts

A text with its quotes and backslashes shielded reads back from between any two equal runs of quotes, except
that a run of two equal halves in front of what cannot be text is an empty string (`quoted?_shielded`). The
search for the closing run may go over bytes instead of characters: neither a quote nor a backslash is part
of a longer character (`closeQuoteBytes_utf8`).
-/

namespace Gapscript.Lexical

/-! ## Runs of quotes -/

instance (mark : Text) : Decidable (IsMark mark) := inferInstanceAs (Decidable (_ ∧ _))

/-- A shielded text can be text exactly if the text itself can. -/
theorem endsQuote_shielded {s : Text} (h : s ≠ []) (t : Text) : endsQuote (shielded s ++ t) = endsQuote s := by
  cases s with
  | nil => exact absurd rfl h
  | cons c cs =>
    rw [shielded]
    split
    · next special =>
      simp only [Bool.or_eq_true, beq_iff_eq] at special
      have plain : (isLayout c || Terminator.isNameStop c) = false := by
        rcases special with quote | rfl
        · rcases isQuote_cases quote with rfl | rfl <;> decide
        · decide
      have slash : (isLayout '\\' || Terminator.isNameStop '\\') = false := by decide
      exact slash.trans plain.symm
    · rfl

/-- A text between two equal runs of quotes is read as it was before it was shielded, unless the first run
is a string by itself. -/
theorem quoted?_shielded {mark s : Text} (hm : IsMark mark) (hs : s ≠ []) (r : Text) :
    quoted? (mark ++ shielded s ++ mark ++ r) =
      if isEmptyPair mark && endsQuote s then some ([], mark.length)
      else some (s, (mark ++ shielded s ++ mark).length) := by
  obtain ⟨some_quote, quotes⟩ := hm
  obtain ⟨q, qs, rfl⟩ := List.exists_cons_of_ne_nil some_quote
  have first : (shielded s ++ (q :: qs ++ r)).takeWhile isQuote = [] := by
    obtain ⟨c, cs, rfl⟩ := List.exists_cons_of_ne_nil hs
    obtain ⟨x, xs, text, plain⟩ := shielded_cons c cs
    simp [text, plain]
  have run : (q :: qs ++ shielded s ++ q :: qs ++ r).takeWhile isQuote = q :: qs := by
    rw [List.append_assoc, List.append_assoc, List.takeWhile_append_of_pos quotes, first, List.append_nil]
  have body : (q :: qs ++ shielded s ++ q :: qs ++ r).drop (q :: qs).length =
      shielded s ++ q :: qs ++ r := by
    rw [List.append_assoc, List.append_assoc, List.drop_left, List.append_assoc]
  have ends : endsQuote (shielded s ++ q :: qs ++ r) = endsQuote s := by
    rw [List.append_assoc, endsQuote_shielded hs]
  rw [quoted?_of_mark run, body, ends, closeQuote_shielded (quotes q List.mem_cons_self)]
  simp only [Option.map_some, List.length_append, Nat.add_assoc]

/-- A text between two equal runs of quotes reads back exactly if the first run is no string by itself. -/
theorem quotedString_shielded_iff {mark s : Text} (hm : IsMark mark) (hs : s ≠ []) (r : Text) (p : Position) :
    quotedString ⟨mark ++ shielded s ++ mark ++ r, p⟩ =
        .ok (s, ⟨r, p.afterText (mark ++ shielded s ++ mark)⟩) ↔
      ¬(isEmptyPair mark = true ∧ endsQuote s = true) := by
  rw [← Bool.and_eq_true, quotedString, quoted?_shielded hm hs]
  cases isEmptyPair mark && endsQuote s with
  | false =>
    rw [if_neg Bool.false_ne_true]
    dsimp only
    rw [skip_append]
    exact iff_of_true rfl Bool.false_ne_true
  | true =>
    rw [if_pos rfl]
    refine iff_of_false (fun h => ?_) (fun h => h rfl)
    exact hs (congrArg Prod.fst (Except.ok.inj h)).symm

/-! ## Bytes -/

/-- The bytes of a text. -/
def utf8 (t : Text) : List UInt8 := t.flatMap String.utf8EncodeChar

theorem utf8_cons (c : Char) (t : Text) : utf8 (c :: t) = String.utf8EncodeChar c ++ utf8 t := List.flatMap_cons

/-- The bytes up to the closing run and how many are read, where a backslash takes the next byte. -/
def closeQuoteBytes (mark : List UInt8) : List UInt8 → Option (List UInt8 × Nat)
  | [] => none
  | 0x5c :: b :: bs => (closeQuoteBytes mark bs).map fun (t, n) => (b :: t, n + 2)
  | b :: bs =>
    if mark.isPrefixOf (b :: bs) then some ([], mark.length)
    else (closeQuoteBytes mark bs).map fun (t, n) => (b :: t, n + 1)

/-- A character below `0x80` is one byte, and no byte of another one is below `0x80`. -/
theorem exists_utf8EncodeChar (c : Char) :
    ∃ b bs, String.utf8EncodeChar c = b :: bs ∧ (∀ x ∈ bs, 0x80 ≤ x.toNat) ∧
      ((b.toNat = c.toNat ∧ bs = []) ∨ (0x80 ≤ c.toNat ∧ 0x80 ≤ b.toNat)) := by
  have value : c.val.toNat = c.toNat := rfl
  unfold String.utf8EncodeChar
  rw [value]
  dsimp only
  split
  · refine ⟨_, _, rfl, nofun, .inl ⟨?_, rfl⟩⟩
    rw [UInt8.toNat_ofNat']
    omega
  · split
    · refine ⟨_, _, rfl, ?_, .inr ⟨by omega, ?_⟩⟩ <;> simp <;> omega
    · split <;> refine ⟨_, _, rfl, ?_, .inr ⟨by omega, ?_⟩⟩ <;> simp <;> omega

/-- Bytes of longer characters are neither backslashes nor the begin of a run of quotes. -/
theorem closeQuoteBytes_append {q : UInt8} {qs : List UInt8} (quote : q.toNat < 0x80) {bs : List UInt8}
    (high : ∀ b ∈ bs, 0x80 ≤ b.toNat) (rest : List UInt8) :
    closeQuoteBytes (q :: qs) (bs ++ rest) =
      (closeQuoteBytes (q :: qs) rest).map fun (t, n) => (bs ++ t, bs.length + n) := by
  induction bs with
  | nil => simp
  | cons b bs ih =>
    obtain ⟨first, high⟩ := List.forall_mem_cons.1 high
    have notSlash : b ≠ 0x5c := by
      rintro rfl
      exact absurd first (by decide)
    have other : (q :: qs).isPrefixOf (b :: (bs ++ rest)) = false := by
      have differ : q ≠ b := by
        rintro rfl
        omega
      simp [List.isPrefixOf, differ]
    rw [List.cons_append, closeQuoteBytes.eq_3 _ _ _ fun _ _ slash => absurd slash notSlash, other, ih high,
      if_neg Bool.false_ne_true, Option.map_map]
    refine congrArg (Option.map · _) (funext fun (t, n) => ?_)
    simp only [Function.comp_apply, List.cons_append, List.length_cons]
    congr 1
    omega

/-- A run of quotes is at the start of some bytes exactly if it is at the start of the text. -/
theorem isPrefixOf_utf8 {mark : Text} (quotes : ∀ q ∈ mark, isQuote q = true) (t : Text) :
    (utf8 mark).isPrefixOf (utf8 t) = mark.isPrefixOf t := by
  induction mark generalizing t with
  | nil => simp [utf8]
  | cons q qs ih =>
    obtain ⟨quote, quotes⟩ := List.forall_mem_cons.1 quotes
    have single : q.toNat < 0x80 ∧ String.utf8EncodeChar q = [UInt8.ofNat q.toNat] := by
      rcases isQuote_cases quote with rfl | rfl <;> decide
    rw [utf8_cons, single.2]
    cases t with
    | nil => rfl
    | cons c cs =>
      obtain ⟨b, bs, bytes, high, shape⟩ := exists_utf8EncodeChar c
      rw [utf8_cons, bytes, List.cons_append, List.nil_append, List.cons_append, List.isPrefixOf, List.isPrefixOf]
      by_cases same : q = c
      · subst same
        rcases shape with ⟨-, rfl⟩ | ⟨low, -⟩
        · rw [single.2] at bytes
          cases bytes
          rw [List.nil_append, ih quotes cs]
          simp
        · omega
      · have differ : UInt8.ofNat q.toNat ≠ b := by
          rintro rfl
          have value : (UInt8.ofNat q.toNat).toNat = q.toNat := by
            rw [UInt8.toNat_ofNat']
            omega
          rw [value] at shape
          rcases shape with ⟨equal, -⟩ | ⟨-, low⟩
          · exact same (Char.toNat_inj.1 equal)
          · omega
        rw [beq_false_of_ne differ, beq_false_of_ne same, Bool.false_and, Bool.false_and]

/-- A character that does not escape the next one is compared with the closing run by its first byte. -/
theorem closeQuoteBytes_cons {mark : Text} (quotes : ∀ q ∈ mark, isQuote q = true) {c : Char} {cs : Text}
    {b : UInt8} {bs : List UInt8} (bytes : String.utf8EncodeChar c = b :: bs)
    (single : (b.toNat = c.toNat ∧ bs = []) ∨ (0x80 ≤ c.toNat ∧ 0x80 ≤ b.toNat))
    (plain : ∀ x xs, c = '\\' → cs = x :: xs → False) :
    closeQuoteBytes (utf8 mark) (utf8 (c :: cs)) =
      if mark.isPrefixOf (c :: cs) then some ([], (utf8 mark).length)
      else (closeQuoteBytes (utf8 mark) (bs ++ utf8 cs)).map fun (t, n) => (b :: t, n + 1) := by
  have noEscape : ∀ x xs, b = 0x5c → bs ++ utf8 cs = x :: xs → False := by
    rintro x xs rfl more
    have value : (0x5c : UInt8).toNat = 0x5c := rfl
    rw [value] at single
    rcases single with ⟨equal, rfl⟩ | ⟨-, low⟩
    · have slash : c = '\\' := Char.toNat_inj.1 equal.symm
      cases cs with
      | nil => cases more
      | cons y ys => exact plain y ys slash rfl
    · omega
  rw [← isPrefixOf_utf8 quotes, utf8_cons, bytes, List.cons_append, closeQuoteBytes.eq_3 _ _ _ noEscape]

/-- A search over bytes for the closing run finds what the search over characters finds. -/
theorem closeQuoteBytes_utf8 {mark : Text} (hm : IsMark mark) (t : Text) :
    closeQuoteBytes (utf8 mark) (utf8 t) =
      (closeQuote mark t).map fun (s, n) => (utf8 s, (utf8 (t.take n)).length) := by
  obtain ⟨some_quote, quotes⟩ := hm
  have pass {bs : List UInt8} (high : ∀ b ∈ bs, 0x80 ≤ b.toNat) (rest : List UInt8) :
      closeQuoteBytes (utf8 mark) (bs ++ rest) =
        (closeQuoteBytes (utf8 mark) rest).map fun (t, n) => (bs ++ t, bs.length + n) := by
    obtain ⟨q, qs, rfl⟩ := List.exists_cons_of_ne_nil some_quote
    rcases isQuote_cases (quotes q List.mem_cons_self) with rfl | rfl <;>
      exact closeQuoteBytes_append (by decide) high rest
  induction t using closeQuote.induct mark with
  | case1 => rfl
  | case2 x cs ih =>
    -- A backslash takes one byte; the other bytes of the character are nothing to stop at.
    obtain ⟨b, bs, bytes, high, -⟩ := exists_utf8EncodeChar x
    have text (t : Text) : utf8 ('\\' :: x :: t) = 0x5c :: b :: (bs ++ utf8 t) := by
      rw [utf8_cons, utf8_cons, bytes]
      rfl
    rw [text, closeQuoteBytes, pass high, ih, closeQuote]
    cases closeQuote mark cs with
    | none => rfl
    | some found =>
      simp only [Option.map_some, List.take_succ_cons, utf8_cons x, text, bytes, List.cons_append,
        List.length_cons, List.length_append]
  | case3 c cs plain found =>
    obtain ⟨b, bs, bytes, -, single⟩ := exists_utf8EncodeChar c
    obtain ⟨rest, text⟩ := List.isPrefixOf_iff_prefix.1 found
    rw [closeQuoteBytes_cons quotes bytes single plain, if_pos found, closeQuote.eq_3 _ _ _ plain, if_pos found,
      Option.map_some, ← text]
    dsimp only
    rw [List.take_left]
    rfl
  | case4 c cs plain missing ih =>
    obtain ⟨b, bs, bytes, high, single⟩ := exists_utf8EncodeChar c
    rw [closeQuoteBytes_cons quotes bytes single plain, if_neg missing, pass high, ih,
      closeQuote.eq_3 _ _ _ plain, if_neg missing]
    cases closeQuote mark cs with
    | none => rfl
    | some found =>
      simp only [Option.map_some, List.take_succ_cons, utf8_cons c, bytes, List.cons_append,
        List.length_cons, List.length_append]

/-! ## Reading back -/

/-- Literals read back. A text with a backslash before every quote and backslash, between two equal runs of
quotes, is read as that text and up to the second run, exactly unless the first run may be an empty string
and the text begins with what ends one; the bytes of it are found as well. The digits of a natural number
with an `n` are read as that number where no word goes on. -/
theorem literals_read_back (p : Position) (r : Text) :
    (∀ mark s : Text, IsMark mark → s ≠ [] →
      (quotedString ⟨mark ++ shielded s ++ mark ++ r, p⟩ =
          .ok (s, ⟨r, p.afterText (mark ++ shielded s ++ mark)⟩) ↔
        ¬(isEmptyPair mark = true ∧ endsQuote s = true)) ∧
      closeQuoteBytes (utf8 mark) (utf8 (shielded s ++ mark ++ r)) =
        some (utf8 s, (utf8 (shielded s ++ mark)).length)) ∧
    (startsWord r = false → ∀ n : Nat,
      literal ⟨Nat.toDigits 10 n ++ 'n' :: r, p⟩ =
        .ok (.bigint n, ⟨r, p.afterText (Nat.toDigits 10 n ++ ['n'])⟩)) := by
  refine ⟨fun mark s hm hs => ⟨quotedString_shielded_iff hm hs r p, ?_⟩, fun hr n => literal_bigint n hr p⟩
  obtain ⟨q, qs, rfl⟩ := List.exists_cons_of_ne_nil hm.1
  rw [closeQuoteBytes_utf8 hm, closeQuote_shielded (hm.2 q List.mem_cons_self), Option.map_some]
  dsimp only
  rw [← List.length_append, List.take_left]

theorem literals_read_back_mixed :
    quotedString ⟨"'\"'é\\'\\\\ €'\"'é".toList, {}⟩ =
        .ok ("é'\\ €".toList, ⟨"é".toList, ({} : Position).afterText "'\"'é\\'\\\\ €'\"'".toList⟩) ∧
      quotedString ⟨"''a\\\"''".toList, {}⟩ =
        .ok ("a\"".toList, ⟨[], ({} : Position).afterText "''a\\\"''".toList⟩) ∧
      literal ⟨"120n)".toList, {}⟩ = .ok (.bigint 120, ⟨")".toList, ({} : Position).afterText "120n".toList⟩) := by
  refine ⟨?_, ?_, ?_⟩
  · exact (((literals_read_back {} "é".toList).1 "'\"'".toList "é'\\ €".toList (by decide) (by decide)).1).2
      (by decide)
  · exact (((literals_read_back {} []).1 "''".toList "a\"".toList (by decide) (by decide)).1).2 (by decide)
  · exact (literals_read_back {} ")".toList).2 (by decide) 120

end Gapscript.Lexical
