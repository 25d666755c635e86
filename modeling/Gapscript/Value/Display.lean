import Gapscript.Value.Heap
import Gapscript.Number.Writing
import Gapscript.Text.Quoted

/-!
# Display

The text of a value. Inside objects and arrays strings are quoted, and an object met again inside
itself is shown as `[circular]`.
-/

namespace Gapscript

/-- The text of a value that is no object. -/
def Value.scalarText : Value → String
  | .undefined => "undefined"
  | .null => "null"
  | .boolean b => if b then "true" else "false"
  | .number x => Number.write Number.display x
  | .bigint n => toString n
  | .string s => s
  | .symbol s => "Symbol(" ++ s.description ++ ")"
  | .object _ => "[object]"
  | .function f => f.code.describe

namespace Heap

/-- The text of a value inside the objects `path`, nested at most `depth` deep. -/
def displayNested (h : Heap) : (depth : Nat) → (path : List Nat) → Value → String
  | depth, path, .object ref =>
    match depth with
    | 0 => "[circular]"
    | depth + 1 =>
      if path.contains ref then "[circular]"
      else
        let o := h.get ref
        let parts := o.entries.map fun (k, v) =>
          let s := displayNested h depth (ref :: path) v
          if o.isArray then s else k ++ ": " ++ s
        let body := ", ".intercalate parts
        if o.isArray then "[" ++ body ++ "]" else "\x7b" ++ body ++ "\x7d"
  | _, _, .string s => Text.quote s
  | _, _, v => v.scalarText

/-- The text of a value. -/
def display (h : Heap) (v : Value) : String :=
  match v with
  | .object _ => h.displayNested (h.objects.size + 1) [] v
  | v => v.scalarText

/-- A value with its type, for reports. -/
def describe (h : Heap) (v : Value) : String :=
  match v with
  | .string s => "\"" ++ s ++ "\" (string)"
  | v => h.display v ++ " (" ++ v.typeName ++ ")"

end Heap

end Gapscript
