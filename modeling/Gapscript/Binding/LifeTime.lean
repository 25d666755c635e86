import Gapscript.Lexical.Layout
import Gapscript.Text.Blank
import Gapscript.Text.Quoted
import Gapscript.Number.Numeral
import Gapscript.Number.Writing

/-!
# Life times

A declaration may limit its life to a number of seconds or of lines. A negative number of lines
puts the life before the declaration: the binding is there on the lines ahead of it and ends where
it is declared. Line numbers are integers of 64 bits, and sums of them wrap.
-/

namespace Gapscript

/-- How long a binding lives. -/
inductive LifeTime where
  | forever
  | seconds (n : Float)
  | lines (n : Int)
deriving Inhabited

/-- The lines and the time a binding is alive; a bound of zero is no bound. -/
structure Window where
  lastLine : Int := 0
  firstLine : Int := 0
  endLine : Int := 0
  deadline : Option Int := none
deriving DecidableEq, Inhabited

namespace LifeTime

/-- The life time as it is written. -/
def describe : LifeTime → String
  | forever => "<Infinity>"
  | seconds n => "<" ++ Number.write Number.duration n ++ "s>"
  | lines n => "<" ++ toString n ++ ">"

/-- The binding lives on the lines before its declaration. -/
def isHoisted : LifeTime → Bool
  | lines n => n < 0
  | _ => false

/-- There is a limit to the life time. -/
def isLimited : LifeTime → Bool
  | forever => false
  | _ => true

/-- The number of lines, none for other life times. -/
def lineCount : LifeTime → Int
  | lines n => n
  | _ => 0

/-- A number of seconds in whole nanoseconds; one that does not fit counts as long past. -/
def nanoseconds (s : Float) : Int :=
  let x := s * 1000000000
  let n : Int := if Number.isNegative x then -(Number.wholePart x : Int) else Number.wholePart x
  if Number.isFinite x && Number.leastWord ≤ n && n ≤ Number.greatestWord then n
  else Number.leastWord

/-- The window of a binding declared on a line at a time. -/
def window (life : LifeTime) (line now : Int) : Window :=
  match life with
  | forever => {}
  | seconds s => { deadline := some (now + nanoseconds s) }
  | lines n =>
    if n > 0 then { lastLine := Number.word (line + n) }
    else if n < 0 then { firstLine := Number.word (line + n), endLine := line }
    else {}

end LifeTime

/-- The window has passed, or has not been reached, on a line at a time. -/
def Window.expired (w : Window) (line now : Int) : Bool :=
  (w.lastLine > 0 && line > w.lastLine) ||
    (w.endLine != 0 && (line ≥ w.endLine || line < w.firstLine)) ||
    match w.deadline with
    | some t => t ≤ now
    | none => false

namespace LifeTime

/-- Reads the text between the angle brackets. -/
def ofText (body : Text) : Except String LifeTime :=
  let shown := Text.quote (String.ofList body)
  if body = "Infinity".toList then .ok .forever
  else if body.getLast? = some 's' then
    match Number.read? (Text.trim body.dropLast) with
    | none => .error ("invalid duration " ++ shown)
    | some n => if n < 0 then .error "duration must not be negative" else .ok (.seconds n)
  else
    match Number.readInteger? body with
    | none => .error ("invalid line count " ++ shown)
    | some n => .ok (.lines n)

/-- The life time under the cursor: a text in angle brackets. -/
def parse (c : Cursor) : Except ParseError (LifeTime × Cursor) :=
  let malformed (detail : String) : ParseError := ⟨.malformedLifeTime, detail, some c.pos⟩
  match c.rest with
  | '<' :: t =>
    let body := t.takeWhile (· != '>')
    if body.length = t.length then .error (malformed "missing '>'")
    else match ofText (Text.trim body) with
      | .ok life => .ok (life, c.skip (body.length + 2))
      | .error detail => .error (malformed detail)
  | _ => .error (malformed "expected '<'")

end LifeTime

end Gapscript
