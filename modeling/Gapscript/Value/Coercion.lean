import Gapscript.Value.Display
import Gapscript.Number.Numeral
import Gapscript.Text.Blank

/-!
# Coercion

What a value means where a truth value, a number or a property key is wanted.
-/

namespace Gapscript

namespace Value

/-- The truth value of a value. -/
def toBoolean : Value → Bool
  | undefined | null => false
  | boolean b => b
  | number x => x != 0 && !x.isNaN
  | bigint n => n != 0
  | string s => s != ""
  | symbol _ | object _ | function _ => true

/-- The number a text stands for: zero if it is blank, NaN if it is no numeral. -/
def textToNumber (s : String) : Float :=
  match Text.trim s.toList with
  | [] => 0
  | t => (Number.read? t).getD Number.nan

/-- The number of a value. -/
def toNumber : Value → Float
  | null => 0
  | boolean b => if b then 1 else 0
  | number x => x
  | bigint n => Number.ofInt n
  | string s => textToNumber s
  | undefined | symbol _ | object _ | function _ => Number.nan

end Value

/-- The key of the whole part of a number. -/
def integerKey (x : Float) : String :=
  let t := Number.truncate x
  if t == 0 then "0" else Number.write Number.key t

/-- The key a text addresses: a whole numeral without an exponent in its shortest form, any other
text as it is. -/
def textKey (s : String) : String :=
  match Number.read? s.toList with
  | some x =>
    if x == Number.truncate x && !s.toList.any (fun c => c == 'e' || c == 'E') then integerKey x
    else s
  | none => s

/-- The property key of a value in brackets. -/
def Heap.propertyKey (h : Heap) (v : Value) : String :=
  match v with
  | .number x => if Number.isFinite x then integerKey x else Number.write Number.display x
  | .string s => textKey s
  | v => h.display v

end Gapscript
