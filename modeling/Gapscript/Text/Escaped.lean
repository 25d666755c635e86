import Gapscript.Text.Cursor
import Gapscript.Number.Numeral

/-!
# Escapes

A backslash in a text introduces a character that is written as a letter or as its code in
hexadecimal. Which letters there are is up to the notation.
-/

namespace Gapscript.Text

/-- The escapes of a notation: letters that stand for a character, and letters that a code of some
number of digits follows. -/
structure Escapes where
  letter : Char → Option Char
  width : Char → Option Nat

/-- The character that a code in hexadecimal stands for. -/
def ofCode? (ds : Text) : Option Char := do
  let n ← ds.foldlM (fun n c => (Number.digit? 16 c).map (n * 16 + ·)) 0
  if n.isValidChar then some (Char.ofNat n) else none

/-- The character of an escape after its backslash, and how many characters it takes up. -/
def Escapes.read (e : Escapes) : Text → Option (Char × Nat)
  | [] => none
  | c :: t =>
    match e.width c with
    | some n => if n ≤ t.length then (ofCode? (t.take n)).map (·, n + 1) else none
    | none => (e.letter c).map (·, 1)

/-- The text that a text with escapes stands for. -/
def Escapes.decode (e : Escapes) (t : Text) : Option Text :=
  match t with
  | [] => some []
  | '\\' :: t => do
    let (c, n) ← e.read t
    let cs ← e.decode (t.drop n)
    some (c :: cs)
  | c :: t => (e.decode t).map (c :: ·)
termination_by t.length
decreasing_by all_goals simp; try omega

end Gapscript.Text
