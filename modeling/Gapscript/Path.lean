/-!
# Paths

What a path leads to, and why that cannot be read as a text.
-/

namespace Gapscript

/-- What is found at a path. -/
inductive PathTarget where
  | text (content : String)
  | directory
  | missing
  /-- The path goes on below a file. -/
  | blocked
deriving DecidableEq, Inhabited

/-- The ending of a path: the last part of its name from the last point on. -/
def Path.ending (path : String) : String :=
  let name := (path.toList.reverse.takeWhile (· != '/')).reverse
  let tail := name.reverse.takeWhile (· != '.')
  if tail.length < name.length then String.ofList ('.' :: tail.reverse) else ""

/-- Why something at a path cannot be read. -/
inductive ReadFault where
  | missing (path : String)
  | blocked (path : String)
  | directory (path : String)
deriving DecidableEq

/-- The wording of a fault. -/
def ReadFault.message : ReadFault → String
  | missing path => "open " ++ path ++ ": no such file or directory"
  | blocked path => "open " ++ path ++ ": not a directory"
  | directory path => "read " ++ path ++ ": is a directory"

/-- The text found at a path. -/
def PathTarget.read (path : String) : PathTarget → Except ReadFault String
  | text content => .ok content
  | directory => .error (.directory path)
  | missing => .error (.missing path)
  | blocked => .error (.blocked path)

end Gapscript
