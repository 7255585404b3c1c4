import ScriptLoader.Digest.Words

/-!
The SHA3-256 digest: a sponge over the permutation of twenty-five 64-bit lanes. Lane `x, y` stands
at index `x + 5 * y`.
-/

namespace ScriptLoader.Digest.Sha3

abbrev State := Vector UInt64 25

def rotateLeft (x : UInt64) (n : Nat) : UInt64 :=
  if n % 64 = 0 then x else x <<< UInt64.ofNat (n % 64) ||| x >>> UInt64.ofNat (64 - n % 64)

def lane (s : State) (x y : Nat) : UInt64 :=
  s[x % 5 + 5 * (y % 5)]

def theta (s : State) : State :=
  let parity : Vector UInt64 5 := Vector.ofFn fun x =>
    lane s x 0 ^^^ lane s x 1 ^^^ lane s x 2 ^^^ lane s x 3 ^^^ lane s x 4
  let effect : Vector UInt64 5 := Vector.ofFn fun x =>
    parity[(x.val + 4) % 5] ^^^ rotateLeft parity[(x.val + 1) % 5] 1
  Vector.ofFn fun i => s[i] ^^^ effect[i.val % 5]

/-- The lanes in the order in which the rotations count them, each the next of a walk. -/
def walk : Nat → Nat × Nat → List (Nat × Nat)
  | 0, _ => []
  | n + 1, (x, y) => (x, y) :: walk n (y, (2 * x + 3 * y) % 5)

/-- The rotation of each lane: the triangular numbers along the walk, and none at the start. -/
def offsets : Vector Nat 25 :=
  ((walk 24 (1, 0)).zipIdx).foldl (fun table entry =>
    table.set! (entry.1.1 + 5 * entry.1.2) ((entry.2 + 1) * (entry.2 + 2) / 2 % 64))
    (Vector.replicate 25 0)

def rhoPi (s : State) : State :=
  Vector.ofFn fun i =>
    let x := i.val % 5
    let y := i.val / 5
    let source := (x + 3 * y) % 5
    rotateLeft (lane s source x) (offsets[(source + 5 * (x % 5)) % 25])

def chi (s : State) : State :=
  Vector.ofFn fun i =>
    let x := i.val % 5
    let y := i.val / 5
    lane s x y ^^^ (~~~lane s (x + 1) y &&& lane s (x + 2) y)

def registerBits : Nat → Nat → List Bool
  | 0, _ => []
  | n + 1, register =>
    let next := if register ≥ 0x80 then (2 * register) ^^^ 0x171 else 2 * register
    (register % 2 = 1) :: registerBits n next

/-- The constant of each round: seven bits of the register at the places `2 ^ j - 1`. -/
def roundConstants : List UInt64 :=
  (chunks 7 (registerBits 168 1)).map fun bits =>
    bits.zipIdx.foldl (fun constant entry =>
      if entry.1 then constant ||| (1 <<< UInt64.ofNat (Nat.pow 2 entry.2 - 1)) else constant) 0

def round (s : State) (constant : UInt64) : State :=
  let mixed := chi (rhoPi (theta s))
  mixed.set 0 (mixed[0] ^^^ constant)

def permute (s : State) : State :=
  roundConstants.foldl round s

def absorb (s : State) (block : List UInt8) : State :=
  let words := ((chunks 8 block).map littleEndian).toArray
  permute (Vector.ofFn fun i => s[i] ^^^ words.getD i 0)

def rate : Nat := 136

/-- The domain bits, zeros and a last bit fill the message up to whole blocks. -/
def pad (bytes : List UInt8) : List UInt8 :=
  let missing := rate - bytes.length % rate
  if missing = 1 then bytes ++ [0x86]
  else bytes ++ 0x06 :: List.replicate (missing - 2) 0 ++ [0x80]

def sha3 (bytes : List UInt8) : List UInt8 :=
  let final := (chunks rate (pad bytes)).foldl absorb (Vector.replicate 25 0)
  (final.toList.take 4).flatMap fun x => littleEndianBytes 8 x.toNat

end ScriptLoader.Digest.Sha3
