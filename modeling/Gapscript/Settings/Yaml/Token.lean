import Gapscript.Settings.Yaml.Plain
import Gapscript.Settings.Yaml.Quoted
import Gapscript.Settings.Yaml.Block

/-!
# Tokens in YAML

A document is read as a row of tokens. Indentation shows only as tokens that open and close blocks,
and whatever turns out to be a key, because a colon follows it, has a token put in front of it
afterwards. Until then the key is pending: it must be on one line and not too long, and a line that
begins where its block does has to be one.
-/

namespace Gapscript.Yaml

open Text (isGap)

/-- A token. -/
inductive Token where
  /-- A directive for the version of the notation, and whether that version is known. -/
  | version (known : Bool)
  /-- A directive for a handle of tags. -/
  | handle (name : Text)
  | documentStart
  | documentEnd
  | textEnd
  | openBlockList
  | openBlockTable
  | closeBlock
  | openList
  | closeList
  | openTable
  | closeTable
  | dash
  | comma
  | key
  | value
  | alias (name : Text)
  | anchor (name : Text)
  | tag (name : Text)
  | scalar (plain : Bool) (text : Text)
deriving DecidableEq

/-- Something that may turn out to be a key. -/
structure PendingKey where
  /-- The number of tokens before it. -/
  token : Nat
  line : Nat
  column : Nat
  index : Nat
  /-- It has to be a key. -/
  required : Bool

/-- The key is on the line of a place and not too far before it. -/
def PendingKey.isFresh (k : PendingKey) (p : Place) : Bool :=
  k.line == p.line && p.index ≤ k.index + 1024

/-- What has been read of a text. -/
structure Tokens where
  place : Place
  tokens : List Token := []
  /-- What may be a key at the current level of brackets. -/
  pending : Option PendingKey := none
  /-- What may be a key at the levels around. -/
  outer : List (Option PendingKey) := []
  /-- A key may begin here. -/
  keyAllowed : Bool := true
  /-- The column after the one where the current block begins, or zero outside of all blocks. -/
  margin : Nat := 0
  /-- The margins of the blocks around. -/
  margins : List Nat := []

namespace Tokens

/-- The place is within brackets. -/
def inFlow (s : Tokens) : Bool := !s.outer.isEmpty

/-- One more token. -/
def push (s : Tokens) (t : Token) : Tokens := { s with tokens := s.tokens ++ [t] }

/-- One more token, which ends after some characters. -/
def take (s : Tokens) (t : Token) (length : Nat) : Tokens :=
  { s.push t with place := s.place.skip length }

/-! ## Blocks -/

/-- Closes the blocks that begin after a margin. -/
def closeBlocks (s : Tokens) (margin : Nat) : Tokens :=
  if s.inFlow then s
  else
    let closed := (s.margin :: s.margins).takeWhile (margin < ·)
    let left := (s.margin :: s.margins).dropWhile (margin < ·)
    { s with
      tokens := s.tokens ++ closed.map fun _ => .closeBlock
      margin := left.headD 0
      margins := left.tail }

/-- A block can begin at a column, further in than the current one. -/
def canOpen (s : Tokens) (column : Nat) : Bool := !s.inFlow && s.margin ≤ column

/-- The margins with a block that begins at a column. -/
def indentTo (s : Tokens) (column : Nat) : Tokens :=
  { s with margin := column + 1, margins := s.margin :: s.margins }

/-- Opens a block here unless one is open already. -/
def openBlock (s : Tokens) (t : Token) : Tokens :=
  if s.canOpen s.place.column then (s.indentTo s.place.column).push t else s

/-! ## Keys -/

/-- Gives up the pending key, unless it has to be one. -/
def dropKey (s : Tokens) : Option Tokens :=
  if (s.pending.map (·.required)).getD false then none else some { s with pending := none }

/-- Remembers that a key may begin here. -/
def saveKey (s : Tokens) : Option Tokens :=
  if s.keyAllowed then
    s.dropKey.map fun s' =>
      { s' with
        pending := some {
          token := s.tokens.length
          line := s.place.line
          column := s.place.column
          index := s.place.index
          required := !s.inFlow && s.margin == s.place.column + 1 } }
  else some s

/-- Makes the pending key a key. -/
def insertKey (s : Tokens) (k : PendingKey) : Tokens :=
  let opens := s.canOpen k.column
  let s := if opens then s.indentTo k.column else s
  let marks := if opens then [.openBlockTable, .key] else [.key]
  { s with
    tokens := s.tokens.take k.token ++ marks ++ s.tokens.drop k.token
    pending := none
    keyAllowed := false }

/-! ## Space and comments -/

/-- What follows a comment and the comments on the lines after it, up to the end of the last line. -/
def skipComments : (fuel : Nat) → Text → Text
  | 0, t => t
  | fuel + 1, t =>
    let t := t.dropWhile fun c => !isBreak c
    let ahead := t.dropWhile Text.isLineSpace
    if ahead.head? = some '#' then skipComments fuel ahead else t

/-- Passes space and comments. A tab may not stand where a key could begin, except within
brackets. -/
def skipSpace : (fuel : Nat) → Tokens → Tokens
  | 0, s => s
  | fuel + 1, s =>
    let t := s.place.rest.dropWhile fun c => c == ' ' || (c == '\t' && (s.inFlow || !s.keyAllowed))
    let t := if t.head? = some '#' then skipComments t.length t else t
    if breakNext t then
      skipSpace fuel
        { s with place := s.place.upTo (dropBreak t), keyAllowed := s.keyAllowed || !s.inFlow }
    else { s with place := s.place.upTo t }

/-- Passes the comment after a token on the same line. -/
def skipLineComment (s : Tokens) : Tokens :=
  let t := s.place.rest.dropWhile isGap
  if s.place.afterWord && t.head? == some '#' then
    { s with place := s.place.upTo (t.dropWhile fun c => !isBreak c) }
  else s

/-! ## Single tokens -/

/-- Ends all blocks, before something that stands outside of them. -/
def leave (s : Tokens) : Option Tokens :=
  (s.closeBlocks 0).dropKey.map fun s => { s with keyAllowed := false }

/-- The end of the text, which also ends the line. -/
def endText (s : Tokens) : Option Tokens := do
  let s ← s.leave
  some (s.push .textEnd)

/-- A mark between documents. -/
def documentMark (s : Tokens) (t : Token) : Option Tokens := do
  let s ← s.leave
  some (s.take t 3)

/-- A character of a name. -/
def isNameChar (c : Char) : Bool := c.isAlphanum || c == '_' || c == '-'

/-- The text after space and a comment is on the next line. -/
def lineEnds (t : Text) : Option Text :=
  let t := t.dropWhile isGap
  let t := if t.head? = some '#' then t.dropWhile fun c => !isBreak c else t
  if t.isEmpty || breakNext t then some (dropBreak t) else none

/-- A number of one or two digits in a version. -/
def versionNumber (t : Text) : Option (Nat × Text) :=
  let (ds, rest) := t.span Char.isDigit
  if ds.isEmpty || 2 < ds.length then none else some (Number.ofDigits ds, rest)

/-- A directive after its name. -/
def directive? (name t : Text) : Option (Token × Text) :=
  let t := t.dropWhile isGap
  if name = "YAML".toList then do
    let (major, t) ← versionNumber t
    let t ← if t.head? = some '.' then some (t.drop 1) else none
    let (minor, t) ← versionNumber t
    some (.version (major == 1 && minor == 1), t)
  else if name = "TAG".toList then
    let (handle, t) := t.span fun c => !isSpace c
    let t := t.dropWhile isGap
    let closed := handle.length == 1 || handle.getLast? == some '!'
    let named := ((handle.drop 1).take (handle.length - 2)).all isNameChar
    if handle.head? = some '!' ∧ closed ∧ named ∧ !spaceNext t then
      some (.handle handle, t.dropWhile fun c => !isSpace c)
    else none
  else none

/-- A directive. -/
def directive (s : Tokens) : Option Tokens := do
  let s ← s.leave
  let (name, t) := (s.place.rest.drop 1).span isNameChar
  let (token, t) ← if spaceNext t then directive? name t else none
  let t ← lineEnds t
  some { s.push token with place := s.place.upTo t }

/-- An opening bracket. -/
def openFlow (s : Tokens) (t : Token) : Option Tokens := do
  let s ← s.saveKey
  let s := { s with pending := none, outer := s.pending :: s.outer, keyAllowed := true }
  some (s.take t 1)

/-- A closing bracket. -/
def closeFlow (s : Tokens) (t : Token) : Option Tokens := do
  let s ← s.dropKey
  let s := match s.outer with
    | [] => s
    | k :: outer => { s with pending := k, outer := outer }
  some ({ s with keyAllowed := false }.take t 1)

/-- A comma within brackets. -/
def commaToken (s : Tokens) : Option Tokens := do
  let s ← s.dropKey
  some ({ s with keyAllowed := true }.take .comma 1)

/-- A dash that begins an item of a list. -/
def dashToken (s : Tokens) : Option Tokens := do
  let s ← if s.inFlow then some s else if s.keyAllowed then some (s.openBlock .openBlockList) else none
  let s ← s.dropKey
  some ({ s with keyAllowed := true }.take .dash 1)

/-- A question mark before a key. -/
def keyToken (s : Tokens) : Option Tokens := do
  let s ← if s.inFlow then some s else if s.keyAllowed then some (s.openBlock .openBlockTable) else none
  let s ← s.dropKey
  some ({ s with keyAllowed := !s.inFlow }.take .key 1)

/-- A colon before a value whose key was marked itself, or is missing. -/
def bareValue (s : Tokens) : Option Tokens := do
  let s ← if s.inFlow then some s else if s.keyAllowed then some (s.openBlock .openBlockTable) else none
  some ({ s with keyAllowed := !s.inFlow }.take .value 1)

/-- A colon before a value. -/
def valueToken (s : Tokens) : Option Tokens :=
  match s.pending with
  | some k =>
    if k.isFresh s.place then some ((s.insertKey k).take .value 1)
    else if k.required then none
    else { s with pending := none }.bareValue
  | none => s.bareValue

/-- A name for a node, or a reference to one. -/
def nameToken (s : Tokens) (token : Text → Token) : Option Tokens := do
  let s ← s.saveKey
  let (name, t) := (s.place.rest.drop 1).span isNameChar
  let ends := spaceNext t || (t.head?.map fun c => "?:,]\x7d%@`".toList.contains c).getD false
  if name.isEmpty || !ends then none
  else some ({ s with keyAllowed := false }.take (token name) (name.length + 1))

/-- A character of a tag. -/
def isTagChar (c : Char) : Bool := isNameChar c || ";/?:@&=+$.,!~*'()[]%<>".toList.contains c

/-- A tag. -/
def tagToken (s : Tokens) : Option Tokens := do
  let s ← s.saveKey
  let (name, t) := s.place.rest.span isTagChar
  if spaceNext t then some ({ s with keyAllowed := false }.take (.tag name) name.length) else none

/-- A block scalar. -/
def blockToken (s : Tokens) (literal : Bool) : Option Tokens := do
  let s ← s.dropKey
  let (text, t) ← block literal s.margin (s.place.rest.drop 1)
  some { s.push (.scalar false text) with keyAllowed := true, place := s.place.upTo t }

/-- A scalar in quotes. -/
def quotedToken (s : Tokens) : Option Tokens := do
  let s ← s.saveKey
  let (text, t) ← quoted s.place.rest
  some { s.push (.scalar false text) with keyAllowed := false, place := s.place.upTo t }

/-- A plain scalar. -/
def plainToken (s : Tokens) : Option Tokens := do
  let s ← s.saveKey
  let (text, p, newLine) ← plain s.inFlow s.margin (s.place.rest.length + 1) [] s.place
  some { s.push (.scalar true text) with keyAllowed := newLine, place := p }

/-! ## All tokens -/

/-- A token that stands within a document. -/
def innerToken (s : Tokens) : Option Tokens :=
  match s.place.rest with
  | [] => none
  | c :: t =>
    if c = '[' then s.openFlow .openList
    else if c = '{' then s.openFlow .openTable
    else if c = ']' then s.closeFlow .closeList
    else if c = '}' then s.closeFlow .closeTable
    else if c = ',' then s.commaToken
    else if c = '-' ∧ spaceNext t then s.dashToken
    else if c = '?' ∧ (s.inFlow ∨ spaceNext t) then s.keyToken
    else if c = ':' ∧ (s.inFlow ∨ spaceNext t) then s.valueToken
    else if c = '*' then s.nameToken .alias
    else if c = '&' then s.nameToken .anchor
    else if c = '!' then s.tagToken
    else if c = '|' ∧ !s.inFlow then s.blockToken true
    else if c = '>' ∧ !s.inFlow then s.blockToken false
    else if c = '\'' ∨ c = '"' then s.quotedToken
    else if startsPlain s.inFlow (c :: t) then s.plainToken
    else none

/-- The comment after a token, except after a dash, where it belongs to what follows. -/
def afterToken (s : Tokens) : Tokens :=
  if s.tokens.getLast? = some .dash then s else s.skipLineComment

/-- One more token, with the tokens for the blocks that end before it. -/
def next (s : Tokens) : Option Tokens :=
  let s := skipSpace (s.place.rest.length + 1) s
  let s := s.closeBlocks (s.place.column + 1)
  if s.place.rest.isEmpty then s.endText
  else if s.place.column = 0 ∧ s.place.rest.head? = some '%' then s.directive
  else if s.place.atMark then
    s.documentMark (if s.place.rest.head? = some '-' then .documentStart else .documentEnd)
  else s.innerToken.map afterToken

/-- A token is the pending key of some level, which may still get a token in front of it. -/
def isPending (s : Tokens) (n : Nat) : Bool :=
  (s.pending :: s.outer).any fun
    | some k => k.token == n && (k.required || k.isFresh s.place)
    | none => false

/-- The tokens that were settled when reading failed: two more tokens follow each, and none of them or
those before it may still turn out to be a key. -/
def settled (s : Tokens) : List Token :=
  let ready := (List.range (s.tokens.length - 2)).takeWhile fun n => !s.isPending n
  s.tokens.take ready.length

/-- The tokens up to the end of the text, or those settled before the first mistake. -/
def readAll : (fuel : Nat) → Tokens → List Token
  | 0, s => s.settled
  | fuel + 1, s =>
    match s.next with
    | none => s.settled
    | some s => if s.tokens.getLast? = some .textEnd then s.tokens else readAll fuel s

/-- The tokens of a text. -/
def ofText (t : Text) : List Token := readAll (t.length + 1) { place := { rest := t } }

end Tokens

end Gapscript.Yaml
