import Gapscript.Settings.Yaml.Place

/-!
# Block scalars in YAML

A block scalar is an indented text below its header. A literal one keeps its line ends, a folded one
turns a single line end between lines that begin with a word into a space. The header may give the
indentation, and what happens to the line ends after the last line.
-/

namespace Gapscript.Yaml

open Text (isGap)

/-- What happens to the line ends after the last line of a block. -/
inductive Chomping where
  | strip
  | clip
  | keep
deriving DecidableEq

/-- The header of a block. -/
structure BlockHeader where
  literal : Bool
  chomping : Chomping := .clip
  /-- The indentation relative to the block around, or zero if the first line shows it. -/
  increment : Nat := 0

namespace BlockHeader

/-- The header with its chomping, if that is given here. -/
def readChomping (h : BlockHeader) : Text → BlockHeader × Text
  | '+' :: t => ({ h with chomping := .keep }, t)
  | '-' :: t => ({ h with chomping := .strip }, t)
  | t => (h, t)

/-- The header with its indentation, if that is given here; it is not zero. -/
def readIncrement (h : BlockHeader) : Text → Option (BlockHeader × Text)
  | c :: t =>
    if c = '0' then none
    else if c.isDigit then some ({ h with increment := c.toNat - 48 }, t)
    else some (h, c :: t)
  | [] => some (h, [])

/-- The header after its first character, and the lines below it. -/
def read (literal : Bool) (t : Text) : Option (BlockHeader × Text) := do
  let (first, t) := readChomping { literal := literal } t
  let (second, t) ← readIncrement first t
  let (header, t) := if first.chomping = .clip ∧ second.increment ≠ 0 then readChomping second t
    else (second, t)
  let t := t.dropWhile isGap
  let t := if t.head? = some '#' then t.dropWhile fun c => !isBreak c else t
  if t.isEmpty then some (header, [])
  else if breakNext t then some (header, dropBreak t)
  else none

end BlockHeader

/-- What stands before the next line of a block that is not empty. -/
structure BlockGap where
  /-- The line ends of the empty lines. -/
  breaks : Text
  /-- The column where the line begins, up to the indentation if that is known. -/
  column : Nat
  /-- The widest indentation seen. -/
  widest : Nat
  rest : Text

/-- Passes empty lines and indentation. An `indent` of zero is not known yet. No tab may stand in the
indentation. -/
def blockGap (indent : Nat) : (fuel : Nat) → Text → Option BlockGap
  | 0, _ => none
  | fuel + 1, t =>
    let spaces := (t.takeWhile (· == ' ')).length
    let column := if indent = 0 then spaces else min spaces indent
    let t := t.drop column
    if (indent = 0 ∨ column < indent) ∧ t.head? = some '\t' then none
    else if breakNext t then
      (blockGap indent fuel (dropBreak t)).map fun g =>
        { g with breaks := breaksOf (t.take 1) ++ g.breaks, widest := max column g.widest }
    else some ⟨[], column, column, t⟩

/-- The end of a line between two lines of a block, the second of which begins after `gap`. -/
def lineJoint (literal indented : Bool) (last : Text) (gap : BlockGap) : Text :=
  if !literal && !indented && !((gap.rest.head?.map isGap).getD false) && last.head? == some '\n' then
    if gap.breaks.isEmpty then [' '] else gap.breaks
  else last ++ gap.breaks

/-- The lines of a block after a gap, given the line end before the gap and whether the line before
began with space. -/
def blockLines (h : BlockHeader) (indent : Nat) : (fuel : Nat) → (indented : Bool) → (last : Text) →
    BlockGap → Option (Text × Text)
  | 0, _, _, _ => none
  | fuel + 1, indented, last, gap =>
    if gap.column = indent ∧ !gap.rest.isEmpty then do
      let (line, t) := gap.rest.span fun c => !isBreak c
      let next ← blockGap indent (t.length + 1) (dropBreak t)
      let blank := (gap.rest.head?.map isGap).getD false
      let (cs, rest) ← blockLines h indent fuel blank (breaksOf (t.take 1)) next
      some (lineJoint h.literal indented last gap ++ line ++ cs, rest)
    else
      let kept := match h.chomping with
        | .strip => []
        | .clip => last
        | .keep => last ++ gap.breaks
      some (kept, gap.rest)

/-- A block scalar after its first character, within a block at `margin`, and what follows it. -/
def block (literal : Bool) (margin : Nat) (t : Text) : Option (Text × Text) := do
  let (h, t) ← BlockHeader.read literal t
  let given := if h.increment = 0 then 0 else margin - 1 + h.increment
  let gap ← blockGap given (t.length + 1) t
  let indent := if given = 0 then max gap.widest (max margin 1) else given
  blockLines h indent (t.length + 1) false [] gap

end Gapscript.Yaml
