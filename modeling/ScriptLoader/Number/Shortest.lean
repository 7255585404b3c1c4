import ScriptLoader.Number.Binary64

/-!
The fewest digits that read back. Of all decimals that are nearer to a double than to any other
one, `shortest` is one with the fewest digits, and of those the nearest.

For each count of digits only the two decimals next to the double can be meant. Everything is
compared in quarters of the double's unit, so that its neighbours' midpoints are whole numbers.
-/

namespace ScriptLoader.Number

structure Decimal where
  digits : Nat
  exponent : Int
  deriving DecidableEq

/-- The midpoints to the neighbours of a double, and the double, in quarters of its unit. The ends
belong to the double if its significand is even. -/
structure Neighbourhood where
  low : Nat
  centre : Nat
  high : Nat
  closed : Bool

def neighbourhood (significand : Nat) (exponent : Int) : Neighbourhood where
  low := 4 * significand - if significand = Nat.pow 2 52 ∧ -1074 < exponent then 1 else 2
  centre := 4 * significand
  high := 4 * significand + 2
  closed := significand % 2 = 0

/-- A grid of decimals against quarters: `digits * decimal` stands beside `quarters * binary`. -/
structure Scale where
  decimal : Nat
  binary : Nat

def scale (binaryExponent decimalExponent : Int) : Scale :=
  let quarter := binaryExponent - 2
  { decimal := Nat.pow 10 decimalExponent.toNat * Nat.pow 2 (-quarter).toNat
    binary := Nat.pow 2 quarter.toNat * Nat.pow 10 (-decimalExponent).toNat }

namespace Neighbourhood

def holds (n : Neighbourhood) (s : Scale) (digits : Nat) : Bool :=
  let value := digits * s.decimal
  if n.closed then n.low * s.binary ≤ value && value ≤ n.high * s.binary
  else n.low * s.binary < value && value < n.high * s.binary

/-- The decimal of a grid that reads back, the nearer one if both neighbours do, and the even one
if they are equally near. -/
def onGrid? (n : Neighbourhood) (s : Scale) : Option Nat :=
  let below := n.centre * s.binary / s.decimal
  let above := below + 1
  match n.holds s below, n.holds s above with
  | false, false => none
  | true, false => some below
  | false, true => some above
  | true, true =>
    let fromBelow := n.centre * s.binary - below * s.decimal
    let fromAbove := above * s.decimal - n.centre * s.binary
    if fromBelow < fromAbove ∨ fromBelow = fromAbove ∧ below % 2 = 0 then some below
    else some above

end Neighbourhood

def raiseExponent (significand : Nat) (binaryExponent : Int) : Nat → Int → Int
  | 0, e => e
  | fuel + 1, e =>
    let s := scale binaryExponent (e + 1)
    if s.decimal ≤ 4 * significand * s.binary then
      raiseExponent significand binaryExponent fuel (e + 1)
    else e

def leadingExponent (significand : Nat) (binaryExponent : Int) : Int :=
  let bits : Int := significand.log2 + binaryExponent
  raiseExponent significand binaryExponent 4 (bits * 30103 / 100000 - 1)

/-- Tries grids with ever more digits. Seventeen digits always suffice. -/
def searchGrids (n : Neighbourhood) (binaryExponent leading : Int) : Nat → Nat → Decimal
  | 0, count =>
    let e := leading - count + 1
    let s := scale binaryExponent e
    ⟨n.centre * s.binary / s.decimal, e⟩
  | fuel + 1, count =>
    let e := leading - count + 1
    match n.onGrid? (scale binaryExponent e) with
    | some digits => ⟨digits, e⟩
    | none => searchGrids n binaryExponent leading fuel (count + 1)

def shortest (significand : Nat) (binaryExponent : Int) : Decimal :=
  searchGrids (neighbourhood significand binaryExponent) binaryExponent
    (leadingExponent significand binaryExponent) 17 1

end ScriptLoader.Number
