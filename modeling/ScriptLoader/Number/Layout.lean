import ScriptLoader.Number.Shortest

/-!
How numbers are written: integers in full up to a limit of digits, and doubles by their shortest
digits, positionally or with an exponent.
-/

namespace ScriptLoader.Number

structure Layout where
  /-- Positional notation begins at this exponent of the first digit. -/
  firstPositional : Int
  /-- Positional notation ends before this exponent. -/
  endPositional : Int
  /-- An exponent has at least this many digits. -/
  exponentWidth : Nat
  nan : String
  infinity : String

/-- Doubles between a ten-thousandth and 10 ^ 16 are written positionally, with at least one place
after the point; an exponent has a sign and two digits. -/
def layout : Layout := ⟨-4, 16, 2, "nan", "inf"⟩

namespace Layout

def zeros (n : Nat) : List Char := List.replicate n '0'

/-- Digits with a point; `exponent` is that of the first digit. -/
def positional (digits : List Char) (exponent : Int) : List Char :=
  if exponent < 0 then '0' :: '.' :: zeros (-exponent - 1).toNat ++ digits
  else
    let whole := exponent.toNat + 1
    if digits.length ≤ whole then digits ++ zeros (whole - digits.length) ++ ['.', '0']
    else digits.take whole ++ '.' :: digits.drop whole

def scientific (l : Layout) (digits : List Char) (exponent : Int) : List Char :=
  let mantissa :=
    match digits with
    | first :: second :: rest => first :: '.' :: second :: rest
    | _ => digits
  let size := Nat.toDigits 10 exponent.natAbs
  mantissa ++ 'e' :: (if exponent < 0 then '-' else '+') ::
    zeros (l.exponentWidth - size.length) ++ size

def dropTrailingZeros (digits : List Char) : List Char :=
  (digits.reverse.dropWhile (· == '0')).reverse

def magnitude (l : Layout) (significand : Nat) (exponent : Int) : List Char :=
  if significand = 0 then ['0', '.', '0']
  else
    let decimal := shortest significand exponent
    let written := Nat.toDigits 10 decimal.digits
    let leading := decimal.exponent + written.length - 1
    let digits := dropTrailingZeros written
    if l.firstPositional ≤ leading ∧ leading < l.endPositional then positional digits leading
    else l.scientific digits leading

def write (l : Layout) (x : Float) : String :=
  match parts x with
  | .nan => l.nan
  | .infinity negative => if negative then "-" ++ l.infinity else l.infinity
  | .finite negative significand exponent =>
    let text := String.ofList (l.magnitude significand exponent)
    if negative then "-" ++ text else text

end Layout

def digitLimit : Nat := 4300

def integerText? (n : Int) : Option String :=
  if n.natAbs < Nat.pow 10 digitLimit then some (toString n) else none

end ScriptLoader.Number
