import ScriptLoader.Number.Layout
import ScriptLoader.Text.CodePoints

/-!
The values of scripts, their types, how they are written and how they are added.
-/

namespace ScriptLoader.Script

inductive Numeral where
  | int (n : Int)
  | float (x : Float)

inductive Value where
  | nil
  /-- What a load gives whose module was up to date. -/
  | skipped
  | boolean (b : Bool)
  | number (n : Numeral)
  | text (s : CodePoints)

inductive TooLarge where
  | toWrite
  | toConvert
  deriving DecidableEq

namespace TooLarge

def message : TooLarge → String
  | toWrite =>
    "Exceeds the limit (4300 digits) for integer string conversion; " ++
      "use sys.set_int_max_str_digits() to increase the limit"
  | toConvert => "int too large to convert to float"

end TooLarge

namespace Numeral

/-- Integers are added exactly; a sum with a double is a double. -/
def add : Numeral → Numeral → Except TooLarge Numeral
  | int m, int n => .ok (int (m + n))
  | float x, float y => .ok (float (x + y))
  | int m, float y =>
    match Number.ofInt? m with
    | some x => .ok (float (x + y))
    | none => .error .toConvert
  | float x, int n =>
    match Number.ofInt? n with
    | some y => .ok (float (x + y))
    | none => .error .toConvert

def write : Numeral → Except TooLarge String
  | int n =>
    match Number.integerText? n with
    | some text => .ok text
    | none => .error .toWrite
  | float x => .ok (Number.layout.write x)

def isZero : Numeral → Bool
  | int n => n == 0
  | float x => x == 0

end Numeral

namespace Value

def typeName : Value → String
  | nil => "nil"
  | skipped => "skipped"
  | boolean _ => "boolean"
  | number _ => "number"
  | text _ => "string"

def write : Value → Except TooLarge CodePoints
  | nil => .ok "nil"
  | skipped => .ok "skipped"
  | boolean b => .ok (if b then "true" else "false" : String)
  | number n => n.write.map CodePoints.ofString
  | text s => .ok s

def holds : Value → Bool
  | nil => false
  | skipped => false
  | boolean b => b
  | number n => !n.isZero
  | text s => s != ""

def isSkipped : Value → Bool
  | skipped => true
  | _ => false

end Value

end ScriptLoader.Script
