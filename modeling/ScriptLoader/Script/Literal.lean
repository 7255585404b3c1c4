import ScriptLoader.Script.Reader
import ScriptLoader.Number.Reading

/-!
The values of literals. A string is decoded from left to right; a backslash begins an escape, and
an escape that is cut short or names no character makes the whole string invalid, as do a bare
carriage return and the NUL character.
-/

namespace ScriptLoader.Script.Literal

def hexValue? (c : Char) : Option Nat :=
  if c.isDigit then some (c.toNat - '0'.toNat)
  else if 'a' ≤ c ∧ c ≤ 'f' then some (c.toNat - 'a'.toNat + 10)
  else if 'A' ≤ c ∧ c ≤ 'F' then some (c.toNat - 'A'.toNat + 10)
  else none

def hexDigits? (before : Nat) : Nat → List Char → Option Nat
  | 0, _ => some before
  | _ + 1, [] => none
  | count + 1, c :: rest =>
    match hexValue? c with
    | some value => hexDigits? (16 * before + value) count rest
    | none => none

def octalDigits (s : List Char) : List Char :=
  (s.take 3).takeWhile fun c => '0' ≤ c && c ≤ '7'

def octalValue (digits : List Char) : Nat :=
  digits.foldl (fun n c => 8 * n + (c.toNat - '0'.toNat)) 0

def simpleEscape? : Char → Option (List Char)
  | '\\' => some ['\\']
  | '\x27' => some ['\x27']
  | '\x22' => some ['\x22']
  | 'a' => some ['\x07']
  | 'b' => some ['\x08']
  | 'f' => some ['\x0c']
  | 'n' => some ['\n']
  | 'r' => some ['\r']
  | 't' => some ['\t']
  | 'v' => some ['\x0b']
  | '\r' => some []
  | '\n' => some []
  | _ => none

def hexWidth? : Char → Option Nat
  | 'x' => some 2
  | 'u' => some 4
  | 'U' => some 8
  | _ => none

/-- The code points that an escape stands for, and how many characters behind its letter belong to
it. Escapes without a meaning stand for themselves. -/
def escape? (c : Char) (rest : List Char) : Option (List CodePoint × Nat) :=
  match simpleEscape? c, hexWidth? c with
  | some value, _ => some (value.map .char, 0)
  | none, some width =>
    ((hexDigits? 0 width rest).bind CodePoint.ofNat?).map fun point => ([point], width)
  | none, none =>
    if octalDigits (c :: rest) ≠ [] then
      let digits := octalDigits (c :: rest)
      some ([.char (Char.ofNat (octalValue digits))], digits.length - 1)
    else if c = 'N' ∨ c = '\x00' then none
    else some ([.char '\\', .char c], 0)

def decodeBody (s : List Char) : Option (List CodePoint) :=
  match s with
  | [] => some []
  | '\\' :: [] => none
  | '\\' :: c :: rest =>
    match escape? c rest with
    | some (value, count) => (decodeBody (rest.drop count)).map (value ++ ·)
    | none => none
  | c :: rest =>
    if c = '\r' ∨ c = '\x00' then none else (decodeBody rest).map (.char c :: ·)
termination_by s.length
decreasing_by
  all_goals simp only [List.length_cons, List.length_drop]; omega

def decodeString? (literal : List Char) : Option CodePoints :=
  (decodeBody literal.tail.dropLast).map CodePoints.mk

/-- An integer has too many digits to be read; zeros in front count, the sign does not. -/
structure TooManyDigits where
  count : Nat
  deriving DecidableEq

namespace TooManyDigits

def message (error : TooManyDigits) : String :=
  "Error trying to process rule \"number\":\n\nExceeds the limit (4300 digits) for integer " ++
    "string conversion: value has " ++ toString error.count ++
    " digits; use sys.set_int_max_str_digits() to increase the limit"

end TooManyDigits

/-- A number with a point or an exponent is a double, any other one an integer. -/
def decodeNumber (literal : List Char) : Except TooManyDigits Numeral :=
  if literal.any fun c => c == '.' || c == 'e' || c == 'E' then
    .ok (.float ((Number.readDecimal? literal).getD 0))
  else
    let count := (Number.splitSign literal).2.length
    if Number.digitLimit < count then .error ⟨count⟩ else .ok (.int (Number.readInt literal))

end ScriptLoader.Script.Literal
