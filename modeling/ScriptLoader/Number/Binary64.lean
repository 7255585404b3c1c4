/-!
Binary floating point with 64 bits, in exact arithmetic. A finite magnitude is a number of units:
significand times a power of two. `nearest` is the double closest to a ratio, to the even one of
two equally close ones; it is the one rule by which decimals are read and integers converted.
-/

namespace ScriptLoader.Number

/-- The bits of an infinite magnitude; larger ones are no numbers. -/
def infinityBits : Nat := 0x7ff0000000000000

def roundDiv (num den : Nat) : Nat :=
  let quotient := num / den
  let rest := num % den
  if 2 * rest < den ∨ 2 * rest = den ∧ quotient % 2 = 0 then quotient else quotient + 1

def scaleDown (num den : Nat) (exponent : Int) : Nat × Nat :=
  (num <<< (-exponent).toNat, den <<< exponent.toNat)

/-- The bits of the magnitude nearest to `num / den`. The exponent is the one that leaves 53 bits
before the point, or the smallest one. -/
def nearest (num den : Nat) : Nat :=
  if num = 0 ∨ den = 0 then 0
  else
    let low := max (-1074) ((num.log2 : Int) - den.log2 - 53)
    let scaled := scaleDown num den low
    let exponent := if scaled.1 / scaled.2 < Nat.pow 2 53 then low else low + 1
    let exact := scaleDown num den exponent
    min infinityBits ((exponent + 1074).toNat * Nat.pow 2 52 + roundDiv exact.1 exact.2)

def ofMagnitude (negative : Bool) (bits : Nat) : Float :=
  Float.ofBits (UInt64.ofNat (if negative then bits + Nat.pow 2 63 else bits))

def ofInt? (n : Int) : Option Float :=
  let bits := nearest n.natAbs 1
  if bits = infinityBits then none else some (ofMagnitude (n < 0) bits)

/-- The double nearest to a decimal. Exponents far outside the range are cut off before any power
is formed. -/
def ofDecimal (negative : Bool) (digits : Nat) (exponent : Int) : Float :=
  let size : Int := (Nat.toDigits 10 digits).length + exponent
  let bits :=
    if digits = 0 ∨ size < -400 then 0
    else if 400 < size then infinityBits
    else nearest (digits * Nat.pow 10 exponent.toNat) (Nat.pow 10 (-exponent).toNat)
  ofMagnitude negative bits

/-- What the bits of a double stand for. A finite magnitude is `significand * 2 ^ exponent`, and
at the lowest significand of its exponent the doubles below lie twice as dense. -/
inductive Parts where
  | nan
  | infinity (negative : Bool)
  | finite (negative : Bool) (significand : Nat) (exponent : Int)
  deriving DecidableEq

def partsOfBits (bits : Nat) : Parts :=
  let negative := Nat.pow 2 63 ≤ bits
  let magnitude := bits % Nat.pow 2 63
  let field : Nat := magnitude / Nat.pow 2 52
  let fraction := magnitude % Nat.pow 2 52
  if infinityBits < magnitude then .nan
  else if magnitude = infinityBits then .infinity negative
  else if field = 0 then .finite negative fraction (-1074)
  else .finite negative (fraction + Nat.pow 2 52) ((field : Int) - 1075)

def parts (x : Float) : Parts :=
  partsOfBits x.toBits.toNat

end ScriptLoader.Number
