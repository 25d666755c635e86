import Gapscript.Text.Printable

/-!
# Quoted text

A text in double quotes as it appears inside displayed values and messages. Quotes and backslashes
are escaped, printable characters stand for themselves, and everything else is a letter escape or a
code in hexadecimal of two, four or eight digits.
-/

namespace Gapscript.Text

/-- A number in hexadecimal with at least `width` digits. -/
def hex (width n : Nat) : List Char :=
  let ds := Nat.toDigits 16 n
  List.replicate (width - ds.length) '0' ++ ds

/-- A character inside the given quote. -/
def quoteChar (mark : Char) (c : Char) : List Char :=
  if c = mark then ['\\', mark]
  else match c with
    | '\\' => ['\\', '\\']
    | '\x07' => ['\\', 'a']
    | '\x08' => ['\\', 'b']
    | '\x0c' => ['\\', 'f']
    | '\n' => ['\\', 'n']
    | '\r' => ['\\', 'r']
    | '\t' => ['\\', 't']
    | '\x0b' => ['\\', 'v']
    | c =>
      if isPrintable c then [c]
      else if c.toNat < 0x80 then ['\\', 'x'] ++ hex 2 c.toNat
      else if c.toNat < 0x10000 then ['\\', 'u'] ++ hex 4 c.toNat
      else ['\\', 'U'] ++ hex 8 c.toNat

/-- A text in double quotes. -/
def quote (s : String) : String :=
  String.ofList ('"' :: s.toList.flatMap (quoteChar '"') ++ ['"'])

/-- A character in single quotes. -/
def quoteSingle (c : Char) : String :=
  String.ofList ('\'' :: quoteChar '\'' c ++ ['\''])

end Gapscript.Text
