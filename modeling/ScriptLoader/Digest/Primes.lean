/-!
Digest constants that are digits of roots of primes. The first bits after the point of a square or
cube root are found exactly, as the integer root of the number shifted up.
-/

namespace ScriptLoader.Digest

/-- The largest root not above the number, one bit at a time from the given one downwards. -/
def rootFrom (exponent number : Nat) : Nat → Nat → Nat
  | 0, root => root
  | bit + 1, root =>
    let larger := root + Nat.pow 2 bit
    rootFrom exponent number bit (if Nat.pow larger exponent ≤ number then larger else root)

def rootFraction (exponent bits number : Nat) : Nat :=
  rootFrom exponent (number <<< (exponent * bits)) (bits + 9) 0 % Nat.pow 2 bits

def isPrime (n : Nat) : Bool :=
  1 < n && (List.range n).all fun d => d < 2 || n % d != 0

def primes : List Nat :=
  (List.range 410).filter isPrime

end ScriptLoader.Digest
