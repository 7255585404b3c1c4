import ScriptLoader.Number.Layout
import ScriptLoader.Text.Numerals

/-!
Reading numbers: plain digits, decimals with a point and an exponent, and the freer spellings that
arguments may have.
-/

namespace ScriptLoader.Number

def ofDigits (digits : List Char) : Nat :=
  digits.foldl (fun n c => 10 * n + (c.toNat - '0'.toNat)) 0

def splitSign : List Char → Bool × List Char
  | '-' :: rest => (true, rest)
  | '+' :: rest => (false, rest)
  | s => (false, s)

def signed (negative : Bool) (n : Nat) : Int :=
  if negative then -n else n

structure Spelling where
  whole : List Char
  fraction : List Char
  exponent : Int
  deriving DecidableEq

def splitExponent? : List Char → Option Int
  | [] => some 0
  | c :: rest =>
    let (negative, power) := splitSign rest
    if (c = 'e' ∨ c = 'E') ∧ power ≠ [] ∧ power.all Char.isDigit then
      some (signed negative (ofDigits power))
    else none

def spelling? (s : List Char) : Option Spelling :=
  let whole := s.takeWhile Char.isDigit
  let rest := s.dropWhile Char.isDigit
  let (fraction, rest) :=
    match rest with
    | '.' :: behind => (behind.takeWhile Char.isDigit, behind.dropWhile Char.isDigit)
    | _ => ([], rest)
  if whole = [] ∧ fraction = [] then none
  else (splitExponent? rest).map fun exponent => ⟨whole, fraction, exponent⟩

def Spelling.toFloat (spelling : Spelling) (negative : Bool) : Float :=
  ofDecimal negative (ofDigits (spelling.whole ++ spelling.fraction))
    (spelling.exponent - spelling.fraction.length)

def readDecimal? (s : List Char) : Option Float :=
  let (negative, magnitude) := splitSign s
  (spelling? magnitude).map fun spelling => spelling.toFloat negative

def readInt (s : List Char) : Int :=
  let (negative, magnitude) := splitSign s
  signed negative (ofDigits magnitude)

def commonDigits (s : List Char) : List Char :=
  s.map fun c =>
    match Text.digitValue? c with
    | some value => Char.ofNat ('0'.toNat + value)
    | none => c

/-- Removes the underscores that stand between two digits; others are not allowed. -/
def joinGroups? : List Char → Option (List Char)
  | [] => some []
  | '_' :: _ => none
  | c :: '_' :: d :: rest =>
    if c.isDigit ∧ d.isDigit then (joinGroups? (d :: rest)).map (c :: ·) else none
  | c :: rest => (joinGroups? rest).map (c :: ·)

/-- An integer as an argument spells it: blanks around it, a sign, digits of any script, though not
too many, and underscores between them. -/
def readFreeInt? (s : List Char) : Option Int :=
  let (negative, magnitude) := splitSign (Text.trim (commonDigits s))
  match joinGroups? magnitude with
  | none => none
  | some digits =>
    if digits ≠ [] ∧ digits.all Char.isDigit ∧ digits.length ≤ digitLimit then
      some (signed negative (ofDigits digits))
    else none

def readFreeFloat? (s : List Char) : Option Float :=
  let (negative, magnitude) := splitSign (Text.trim (commonDigits s))
  let word := String.ofList (magnitude.map Char.toLower)
  if word = "inf" ∨ word = "infinity" then some (ofMagnitude negative infinityBits)
  else if word = "nan" then some (ofMagnitude negative (infinityBits + Nat.pow 2 51))
  else
    match joinGroups? magnitude with
    | none => none
    | some plain => (spelling? plain).map fun spelling => spelling.toFloat negative

end ScriptLoader.Number
