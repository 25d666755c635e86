import Gapscript.Settings.Yaml.Place
import Gapscript.Text.Escaped

/-!
# Quoted scalars in YAML

Between single quotes only the quote itself is written specially, as two quotes. Between double quotes
a backslash begins an escape, and at the end of a line it joins the next line without a space. In both
kinds line ends are folded, and a mark between documents may not begin a line.
-/

namespace Gapscript.Yaml

open Text (isGap)

/-- The escapes between double quotes. -/
def escapes : Text.Escapes where
  letter := fun c => [('0', '\x00'), ('a', '\x07'), ('b', '\x08'), ('t', '\t'), ('\t', '\t'),
    ('n', '\n'), ('v', '\x0b'), ('f', '\x0c'), ('r', '\r'), ('e', '\x1b'), (' ', ' '), ('"', '"'),
    ('\'', '\''), ('\\', '\\'), ('N', '\u0085'), ('_', '\u00a0'), ('L', '\u2028'),
    ('P', '\u2029')].lookup c
  width := fun c => [('x', 2), ('u', 4), ('U', 8)].lookup c

/-- The line that begins after some space is a mark between documents. -/
def marksAfter (space rest : Text) : Bool :=
  (space.getLast?.map isBreak).getD true && markNext rest

/-- What space within quotes stands for. -/
def foldSpace (space : Text) : Text :=
  if space.any isBreak then folded (breaksOf space) else space

/-- The text up to the closing single quote, and what follows the quote. -/
def singleQuoted : (fuel : Nat) → Text → Option (Text × Text)
  | 0, _ => none
  | _, [] => none
  | fuel + 1, c :: t =>
    if isSpace c then
      let space := (c :: t).takeWhile isSpace
      let rest := (c :: t).dropWhile isSpace
      if marksAfter space rest then none
      else (singleQuoted fuel rest).map fun (cs, rest) => (foldSpace space ++ cs, rest)
    else if c = '\'' then
      match t with
      | '\'' :: t => (singleQuoted fuel t).map fun (cs, rest) => ('\'' :: cs, rest)
      | t => some ([], t)
    else (singleQuoted fuel t).map fun (cs, rest) => (c :: cs, rest)

/-- The text up to the closing double quote, and what follows the quote. -/
def doubleQuoted : (fuel : Nat) → Text → Option (Text × Text)
  | 0, _ => none
  | _, [] => none
  | fuel + 1, c :: t =>
    if isSpace c then
      let space := (c :: t).takeWhile isSpace
      let rest := (c :: t).dropWhile isSpace
      if marksAfter space rest then none
      else (doubleQuoted fuel rest).map fun (cs, rest) => (foldSpace space ++ cs, rest)
    else if c = '"' then some ([], t)
    else if c = '\\' then
      if breakNext t then
        let space := (dropBreak t).takeWhile isSpace
        let rest := (dropBreak t).dropWhile isSpace
        if marksAfter space rest then none
        else (doubleQuoted fuel rest).map fun (cs, rest) => (breaksOf space ++ cs, rest)
      else do
        let (d, n) ← escapes.read t
        let (cs, rest) ← doubleQuoted fuel (t.drop n)
        some (d :: cs, rest)
    else (doubleQuoted fuel t).map fun (cs, rest) => (c :: cs, rest)

/-- A scalar in quotes, and what follows it. -/
def quoted : Text → Option (Text × Text)
  | '\'' :: t => singleQuoted (t.length + 1) t
  | '"' :: t => doubleQuoted (t.length + 1) t
  | _ => none

end Gapscript.Yaml
