import Gapscript.Text.Position

/-!
# Cursors

A cursor is the text still to be read together with the place it starts at. Reading never changes
a cursor: it returns a later one, so a failed alternative starts over from the one it was given.
-/

namespace Gapscript

/-- A text to be read. -/
abbrev Text := List Char

/-- The remaining text and the place it starts at. -/
structure Cursor where
  rest : Text
  pos : Position
deriving DecidableEq, Inhabited

namespace Text

/-- The number of bytes a text takes in UTF-8. -/
def bytes (t : Text) : Nat :=
  t.foldl (fun n c => n + c.utf8Size) 0

/-- The first `n` bytes of a text, provided it has that many and they end a character. -/
def firstBytes? : Nat → Text → Option Text
  | 0, _ => some []
  | _ + 1, [] => none
  | n + 1, c :: cs =>
    if c.utf8Size ≤ n + 1 then (firstBytes? (n + 1 - c.utf8Size) cs).map (c :: ·) else none

/-- The longest run of whole characters within the first `n` bytes. -/
def within (n : Nat) : Text → Text
  | [] => []
  | c :: cs => if c.utf8Size ≤ n then c :: within (n - c.utf8Size) cs else []

/-- How many characters it takes to cover `n` bytes. -/
def covering (n : Nat) : Text → Nat
  | [] => 0
  | c :: cs => if n = 0 then 0 else covering (n - c.utf8Size) cs + 1

end Text

namespace Cursor

/-- The start of a source. -/
def start (source : String) (file : String) : Cursor :=
  ⟨source.toList, { file := file }⟩

/-- All text has been read. -/
def atEnd (c : Cursor) : Bool := c.rest.isEmpty

/-- The character under the cursor. -/
def peek? (c : Cursor) : Option Char := c.rest.head?

/-- The cursor after one character. -/
def next (c : Cursor) : Cursor :=
  match c.rest with
  | [] => c
  | x :: xs => ⟨xs, c.pos.after x⟩

/-- The cursor after `n` characters, or at the end if there are fewer. -/
def skip : Nat → Cursor → Cursor
  | 0, c => c
  | n + 1, c => skip n c.next

/-- The remaining text begins with `s`. -/
def startsWith (c : Cursor) (s : String) : Bool :=
  s.toList.isPrefixOf c.rest

/-- The cursor after `s`, if the remaining text begins with it. -/
def consume? (c : Cursor) (s : String) : Option Cursor :=
  if c.startsWith s then some (c.skip s.length) else none

/-- The text from a cursor up to a later one over the same source, and nothing if the other one is
not reached. -/
def textUntil (c d : Cursor) : Text :=
  let n := d.pos.offset - c.pos.offset
  if n < 0 then [] else (Text.firstBytes? n.toNat c.rest).getD []

/-- The cursor over only the first `n` bytes of the remaining text. -/
def limit (n : Nat) (c : Cursor) : Cursor :=
  { c with rest := Text.within n c.rest }

/-- The cursor after `n` bytes, counted up to the end of the character they fall in. -/
def skipBytes (n : Nat) (c : Cursor) : Cursor :=
  c.skip (Text.covering n c.rest)

@[simp] theorem skip_zero (c : Cursor) : c.skip 0 = c := rfl

@[simp] theorem skip_succ (n : Nat) (c : Cursor) : c.skip (n + 1) = c.next.skip n := rfl

theorem next_nil (p : Position) : next ⟨[], p⟩ = ⟨[], p⟩ := rfl

theorem next_cons (x : Char) (xs : Text) (p : Position) : next ⟨x :: xs, p⟩ = ⟨xs, p.after x⟩ := rfl

/-- Skipping drops characters and moves the place over them. -/
theorem skip_eq (n : Nat) (c : Cursor) : c.skip n = ⟨c.rest.drop n, c.pos.afterText (c.rest.take n)⟩ := by
  induction n generalizing c with
  | zero => simp
  | succ n ih =>
    obtain ⟨t, p⟩ := c
    cases t with
    | nil => rw [skip_succ, next_nil, ih]; simp
    | cons x xs => rw [skip_succ, next_cons, ih]; simp

@[simp] theorem rest_skip (n : Nat) (c : Cursor) : (c.skip n).rest = c.rest.drop n := by
  rw [skip_eq]

@[simp] theorem pos_skip (n : Nat) (c : Cursor) :
    (c.skip n).pos = c.pos.afterText (c.rest.take n) := by
  rw [skip_eq]

end Cursor

end Gapscript
