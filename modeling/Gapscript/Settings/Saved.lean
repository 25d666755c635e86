import Gapscript.Settings.Scalar
import Gapscript.Settings.Yaml.Place
import Gapscript.Text.Quoted

/-!
# Saved settings

Settings are saved one to a line, in YAML. A text of one line stands plain where it would be read
back as the same text, between single quotes where only its form is in the way, and between double
quotes where it would be read as something else or holds a character that has to be escaped. A text
of several lines stands as a block below a bar, unless spaces at the ends of its lines or characters
to escape forbid it.
-/

namespace Gapscript.Saved

open Text (gapNext)
open Yaml (isBreak)

/-! ## What a text would be taken for -/

/-- A part of a number in base sixty: one or two digits, below sixty. -/
def isSixtieth : Text → Bool
  | [a] => a.isDigit
  | [a, b] => '0' ≤ a && a ≤ '5' && b.isDigit
  | _ => false

/-- Digits in base sixty, perhaps with a fraction, which other readers take for a number. -/
def isBase60 (t : Text) : Bool :=
  match (Scalar.unsigned t).splitOn ':' with
  | whole :: part :: parts =>
    let parts := part :: parts
    let last := parts.getLastD []
    let fraction := last.dropWhile (· != '.')
    (whole.head?.map Char.isDigit).getD false && whole.all (fun c => c.isDigit || c == '_') &&
      (parts.dropLast ++ [last.takeWhile (· != '.')]).all isSixtieth &&
      (fraction.drop 1).all fun c => c.isDigit || c == '_'
  | _ => false

/-- A text that reads as itself without quotes. -/
def readsPlain (s : String) : Bool :=
  match Scalar.ofText s.toList with
  | .text => (Scalar.oldSwitches.lookup s).isNone && !isBase60 s.toList
  | _ => false

/-! ## What the form of a text allows -/

/-- A character that need not be escaped; the last planes are always escaped. -/
def isVisible (c : Char) : Bool :=
  let n := c.toNat
  n == 10 || (0x20 ≤ n && n ≤ 0x7E) || (0xA0 ≤ n && n ≤ 0xFFFD && n ≠ 0xFEFF)

/-- Characters that mean something in front of a scalar. -/
def isIndicator (c : Char) : Bool := "#,[]\x7b\x7d&*!|>'\"%@`".toList.contains c

/-- A mark inside a text: a colon before a gap, or a `#` after one. -/
def hasMark (afterGap : Bool) : Text → Bool
  | [] => false
  | c :: t => (c == ':' && gapNext t) || (c == '#' && afterGap) || hasMark (c == ' ') t

/-- A text that would be taken for something else by its first characters or by a mark in it. -/
def hasIndicator (t : Text) : Bool :=
  match t with
  | [] => false
  | c :: r =>
    isIndicator c || ((c == '-' || c == '?' || c == ':') && gapNext r) || hasMark false t ||
      "---".toList.isPrefixOf t || "...".toList.isPrefixOf t

/-- Two neighbours in a text, the first of one kind and the second of another. -/
def hasPair (p q : Char → Bool) (t : Text) : Bool := (t.zip t.tail).any fun (a, b) => p a && q b

/-- The notations in which a text can stand. -/
structure Form where
  plain : Bool
  single : Bool
  block : Bool

/-- The notations that the form of a text allows. -/
def Form.of (t : Text) : Form :=
  let isSpace := (· == ' ')
  let atStart := (t.head?.map fun c => isSpace c || isBreak c).getD false
  let atEnd := (t.getLast?.map isSpace).getD false
  let special := t.any fun c => !isVisible c && c != '\t'
  let spaceBreak := hasPair isSpace isBreak t
  let single := !(special || spaceBreak || hasPair isBreak isSpace t || t.contains '\t')
  ⟨single && !(atStart || atEnd || t.any isBreak || hasIndicator t), single,
    !(special || spaceBreak || atEnd)⟩

/-! ## Notations -/

/-- The letters of escapes. -/
def escapeLetters : List (Char × Char) :=
  [('\x00', '0'), ('\x07', 'a'), ('\x08', 'b'), ('\t', 't'), ('\n', 'n'), ('\x0b', 'v'),
    ('\x0c', 'f'), ('\r', 'r'), ('\x1b', 'e'), ('"', '"'), ('\\', '\\'), ('\u0085', 'N'),
    ('\u00a0', '_'), ('\u2028', 'L'), ('\u2029', 'P')]

/-- A character as an escape. -/
def escape (c : Char) : Text :=
  match escapeLetters.lookup c with
  | some l => ['\\', l]
  | none =>
    if c.toNat < 0x100 then '\\' :: 'x' :: (Text.hex 2 c.toNat).map Char.toUpper
    else if c.toNat < 0x10000 then '\\' :: 'u' :: (Text.hex 4 c.toNat).map Char.toUpper
    else '\\' :: 'U' :: (Text.hex 8 c.toNat).map Char.toUpper

/-- A text between double quotes. One that begins with a byte order mark is escaped throughout. -/
def doubleQuoted (t : Text) : Text :=
  let all := t.head? == some '\uFEFF'
  '"' :: (t.flatMap fun c =>
    if all || !isVisible c || isBreak c || c == '"' || c == '\\' then escape c else [c]) ++ ['"']

/-- The spaces in front of a continued line of an item. -/
def margin : Text := List.replicate 6 ' '

/-- A text whose lines after the first begin with a margin. `atMargin` says that a line has ended
before the text. -/
def continued (atMargin : Bool) : Text → Text
  | [] => []
  | c :: t =>
    if isBreak c then c :: continued true t
    else if atMargin then margin ++ c :: continued false t
    else c :: continued false t

/-- A text between single quotes. -/
def singleQuoted (t : Text) : Text :=
  '\'' :: continued false (t.flatMap fun c => if c = '\'' then ['\'', '\''] else [c]) ++ ['\'']

/-- What the head of a block says about the line ends after its last line: none, one, or all. -/
def chomping (t : Text) : Text :=
  match t.reverse with
  | [] => ['-']
  | c :: r =>
    if !isBreak c then ['-']
    else if (r.head?.map isBreak).getD true then ['+']
    else []

/-- A text as a block. Its head gives the indentation if the text itself begins with a space or a
line end. -/
def block (t : Text) : Text :=
  let opens := (t.head?.map isBreak).getD false
  let hint := if opens || t.head? == some ' ' then ['4'] else []
  '|' :: hint ++ chomping t ++ (if opens then [] else ['\n']) ++ continued true t

/-- A text as a scalar. -/
def text (s : String) : Text :=
  let t := s.toList
  let form := Form.of t
  if t.contains '\n' then if form.block then block t else doubleQuoted t
  else if !readsPlain s then doubleQuoted t
  else if form.plain then t
  else if form.single then singleQuoted t
  else doubleQuoted t

/-- A text as an item of a list. A block may bring its own line end. -/
def item (s : String) : String :=
  let t := text s
  let ended := (t.getLast?.map isBreak).getD false
  String.ofList ("    - ".toList ++ t ++ if ended then [] else ['\n'])

/-- A list, one item after another. -/
def texts : List String → String
  | [] => " []\n"
  | items => "\n" ++ String.join (items.map item)

/-- A switch. -/
def switch (b : Bool) : String := if b then "true" else "false"

end Saved

/-- The settings as they are saved. -/
def Settings.save (s : Settings) : String :=
  "debug: " ++ Saved.switch s.debug ++ "\nlog_categories:" ++ Saved.texts s.logCategories ++
    "show_error_context: " ++ Saved.switch s.showErrorContext ++
    "\ncontext_lines: " ++ toString s.contextLines ++
    "\nmax_scope_depth: " ++ toString s.maxScopeDepth ++
    "\ncolor: " ++ Saved.switch s.color ++ "\n"

end Gapscript
