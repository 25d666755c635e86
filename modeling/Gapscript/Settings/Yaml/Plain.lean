import Gapscript.Settings.Yaml.Place

/-!
# Plain scalars in YAML

A plain scalar has no quotes, so it ends where something else could begin: at a colon or a comment
with space around it and, within brackets, at a comma or a bracket. It goes on over lines that are
indented further than the block they stand in.
-/

namespace Gapscript.Yaml

open Text (isGap)

/-- A colon that ends a key. -/
def isColon : Text → Bool
  | ':' :: t => spaceNext t
  | _ => false

/-- A character that ends a plain scalar within brackets. -/
def isFlowMark (c : Char) : Bool := ",?[]\x7b\x7d".toList.contains c

/-- A plain scalar can begin like this. -/
def startsPlain (inFlow : Bool) : Text → Bool
  | [] => false
  | c :: t =>
    if c == '-' then !((t.head?.map isGap).getD false)
    else if c == '?' || c == ':' then !inFlow && !spaceNext t
    else !(isSpace c || ",[]\x7b\x7d#&*!|>'\"%@`".toList.contains c)

/-- The part of a line that belongs to a plain scalar, with the space after it. A comment may begin
at the start of a word. -/
def plainLine (inFlow wordStart : Bool) : Text → Text
  | [] => []
  | c :: t =>
    if isBreak c then []
    else if isGap c then c :: plainLine inFlow true t
    else if (c == '#' && wordStart) || isColon (c :: t) || (inFlow && isFlowMark c) then []
    else c :: plainLine inFlow false t

/-- After the first line end, a tab stands before a column. -/
def hasEarlyTab (limit : Nat) (column : Option Nat) : Text → Bool
  | [] => false
  | c :: t =>
    if isBreak c then hasEarlyTab limit (some 0) t
    else
      (c == '\t' && (column.map (decide <| · < limit)).getD false) ||
        hasEarlyTab limit (column.map (· + 1)) t

/-- A plain scalar, where it ends, and whether the end of a line was passed after its last word.
`start` is the text before the place, and continuation lines begin no earlier than at `margin`. -/
def plain (inFlow : Bool) (margin : Nat) : (fuel : Nat) → (start : Text) → Place →
    Option (Text × Place × Bool)
  | 0, _, _ => none
  | fuel + 1, start, p =>
    let line := plainLine inFlow true p.rest
    let text := start ++ Text.dropEnd isGap line
    let p := p.skip line.length
    if breakNext p.rest then
      let space := p.rest.takeWhile isSpace
      let q := p.skip space.length
      if hasEarlyTab margin none space then none
      else if (!inFlow && q.column < margin) || q.atMark || (plainLine inFlow true q.rest).isEmpty then
        some (text, q, true)
      else plain inFlow margin fuel (text ++ folded (breaksOf space)) q
    else some (text, p, false)

end Gapscript.Yaml
