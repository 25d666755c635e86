import Gapscript.Proofs.Lexical.Quotation

/-!
# The order of texts

Texts are ordered by their first character that differs, and UTF-8 keeps this order: the bytes of texts are
ordered as the texts are (`utf8_lt`).
-/

namespace Gapscript.Lexical

theorem byte_cons_lt {a b : Nat} (ha : a < 256) (hb : b < 256) (u v : List UInt8) :
    UInt8.ofNat a :: u < UInt8.ofNat b :: v ↔ a < b ∨ a = b ∧ u < v := by
  rw [List.cons_lt_cons_iff, UInt8.lt_iff_toNat_lt, ← UInt8.toNat_inj, UInt8.toNat_ofNat', UInt8.toNat_ofNat',
    Nat.mod_eq_of_lt ha, Nat.mod_eq_of_lt hb]

/-- Four digits to the base 64, of which the first may be any number, are ordered by the first that differs. -/
theorem digits_lt {m n : Nat} (h : m < n) :
    m / 262144 < n / 262144 ∨ m / 262144 = n / 262144 ∧ (m / 4096 % 64 < n / 4096 % 64 ∨
      m / 4096 % 64 = n / 4096 % 64 ∧ (m / 64 % 64 < n / 64 % 64 ∨
        m / 64 % 64 = n / 64 % 64 ∧ m % 64 < n % 64)) := by
  rcases Nat.lt_or_eq_of_le (Nat.div_le_div_right (c := 262144) h.le) with first | first
  · exact .inl first
  · refine .inr ⟨first, ?_⟩
    rcases Nat.lt_or_eq_of_le (Nat.div_le_div_right (c := 4096) h.le) with second | second
    · left
      omega
    · refine .inr ⟨by rw [second], ?_⟩
      omega

/-- The bytes of a lesser character come first, whatever follows: a character of more bytes has a greater
first byte, and between characters of as many the first digit in which their codes differ decides. -/
theorem utf8EncodeChar_append_lt {c d : Char} (h : c < d) (u v : List UInt8) :
    String.utf8EncodeChar c ++ u < String.utf8EncodeChar d ++ v := by
  have codes : c.val.toNat < d.val.toNat := UInt32.lt_iff_toNat_lt.1 (Char.lt_def.1 h)
  have bound : d.val.toNat < 0x110000 := by
    rcases d.valid with low | high
    · exact Nat.lt_trans low (by decide)
    · exact high.2
  unfold String.utf8EncodeChar
  dsimp only
  generalize c.val.toNat = m at codes ⊢
  generalize d.val.toNat = n at codes bound ⊢
  have order := digits_lt codes
  -- Each number of bytes of the one with each of the other: the first byte of a longer one begins with more
  -- ones, and the bytes of two that are as long are the digits with a fixed offset each.
  repeat' split
  all_goals simp (disch := omega) only [List.cons_append, List.nil_append, byte_cons_lt, Nat.mod_eq_of_lt]
  all_goals omega

theorem utf8_lt {s t : Text} (h : s < t) : utf8 s < utf8 t := by
  induction (show List.Lex (· < ·) s t from h) with
  | @nil d t =>
    obtain ⟨b, bs, bytes, -⟩ := exists_utf8EncodeChar d
    rw [utf8_cons, bytes]
    exact List.nil_lt_cons b _
  | rel less =>
    rw [utf8_cons, utf8_cons]
    exact utf8EncodeChar_append_lt less _ _
  | @cons c s t later ih =>
    rw [utf8_cons, utf8_cons]
    exact List.append_left_lt (ih later)

end Gapscript.Lexical
