import ScriptLoader.Digest.Sha2

/-!
The BLAKE2 digests without a key, at their full lengths. One description serves both word sizes.
-/

namespace ScriptLoader.Digest.Blake2

structure Family (word : Type) where
  wordSize : Nat
  rounds : Nat
  start : Vector word 8
  ofBytes : List UInt8 → word
  ofNat : Nat → word
  toNat : word → Nat
  rotateRight : word → word → word
  rotations : Vector word 4

def family64 : Family UInt64 where
  wordSize := 8
  rounds := 12
  start := Sha2.start64 0
  ofBytes := littleEndian
  ofNat := UInt64.ofNat
  toNat := UInt64.toNat
  rotateRight := Sha2.rotateRight64
  rotations := #v[32, 24, 16, 63]

def family32 : Family UInt32 where
  wordSize := 4
  rounds := 10
  start := Sha2.start32 0 0
  ofBytes bytes := (littleEndian bytes).toUInt32
  ofNat := UInt32.ofNat
  toNat := UInt32.toNat
  rotateRight := Sha2.rotateRight32
  rotations := #v[16, 12, 8, 7]

def permutations : Array (Array Nat) :=
  #[#[0, 1, 2, 3, 4, 5, 6, 7, 8, 9, 10, 11, 12, 13, 14, 15],
    #[14, 10, 4, 8, 9, 15, 13, 6, 1, 12, 0, 2, 11, 7, 5, 3],
    #[11, 8, 12, 0, 5, 2, 15, 13, 10, 14, 3, 6, 7, 1, 9, 4],
    #[7, 9, 3, 1, 13, 12, 11, 14, 2, 6, 5, 10, 4, 0, 15, 8],
    #[9, 0, 5, 7, 2, 4, 10, 15, 14, 1, 11, 12, 6, 8, 3, 13],
    #[2, 12, 6, 10, 0, 11, 8, 3, 4, 13, 7, 5, 15, 14, 1, 9],
    #[12, 5, 1, 15, 14, 13, 4, 10, 0, 7, 6, 3, 9, 2, 8, 11],
    #[13, 11, 7, 14, 12, 1, 3, 9, 5, 0, 15, 4, 8, 6, 2, 10],
    #[6, 15, 14, 9, 11, 3, 0, 8, 12, 2, 13, 7, 1, 4, 10, 5],
    #[10, 2, 8, 4, 7, 6, 1, 5, 15, 11, 9, 14, 3, 12, 13, 0]]

/-- The four columns and the four diagonals, each mixed once in a round. -/
def quarters : List (Fin 16 × Fin 16 × Fin 16 × Fin 16) :=
  [(0, 4, 8, 12), (1, 5, 9, 13), (2, 6, 10, 14), (3, 7, 11, 15),
    (0, 5, 10, 15), (1, 6, 11, 12), (2, 7, 8, 13), (3, 4, 9, 14)]

section
variable {word : Type} [Inhabited word] [Add word] [XorOp word] [Complement word]

@[specialize] def mix (family : Family word) (v : Vector word 16)
    (quarter : Fin 16 × Fin 16 × Fin 16 × Fin 16) (x y : word) : Vector word 16 :=
  let (i, j, k, l) := quarter
  let a := v[i] + v[j] + x
  let d := family.rotateRight (v[l] ^^^ a) (family.rotations.get 0)
  let c := v[k] + d
  let b := family.rotateRight (v[j] ^^^ c) (family.rotations.get 1)
  let a := a + b + y
  let d := family.rotateRight (d ^^^ a) (family.rotations.get 2)
  let c := c + d
  let b := family.rotateRight (b ^^^ c) (family.rotations.get 3)
  (((v.set i a).set j b).set k c).set l d

@[specialize] def round (family : Family word) (words : Array word) (v : Vector word 16)
    (number : Nat) : Vector word 16 :=
  let order := permutations.getD (number % 10) #[]
  let input (i : Nat) := words.getD (order.getD i 0) default
  quarters.zipIdx.foldl (fun v entry =>
    mix family v entry.1 (input (2 * entry.2)) (input (2 * entry.2 + 1))) v

@[specialize] def compress (family : Family word) (h : Vector word 8) (block : List UInt8)
    (count : Nat) (last : Bool) : Vector word 8 :=
  let words := ((chunks family.wordSize block).map family.ofBytes).toArray
  let begun : Vector word 16 := h ++ family.start
  let counted := (begun.set 12 (begun[12] ^^^ family.ofNat count)).set 13
    (begun[13] ^^^ family.ofNat (count >>> (8 * family.wordSize)))
  let marked := if last then counted.set 14 (~~~counted[14]) else counted
  let v := (List.range family.rounds).foldl (round family words) marked
  Vector.ofFn fun i => h[i] ^^^ v[i.val] ^^^ v[i.val + 8]

@[specialize] def absorb (family : Family word) (size : Nat) :
    Vector word 8 → Nat → List (List UInt8) → Vector word 8
  | h, _, [] => h
  | h, _, [block] => compress family h block size true
  | h, count, block :: rest =>
    let count := count + 16 * family.wordSize
    absorb family size (compress family h block count false) count rest

/-- The parameters (digest length, no key, no tree) go into the first word; the last block is
filled up with zeros, and an empty message is one block. -/
@[specialize] def digest (family : Family word) (bytes : List UInt8) : List UInt8 :=
  let width := 16 * family.wordSize
  let fill := if bytes = [] then width else (width - bytes.length % width) % width
  let blocks := chunks width (bytes ++ List.replicate fill 0)
  let parameters := 0x01010000 + 8 * family.wordSize
  let start := family.start.mapIdx fun i x => if i = 0 then x ^^^ family.ofNat parameters else x
  (absorb family bytes.length start 0 blocks).toList.flatMap fun x =>
    littleEndianBytes family.wordSize (family.toNat x)

end

def blake2b (bytes : List UInt8) : List UInt8 :=
  digest family64 bytes

def blake2s (bytes : List UInt8) : List UInt8 :=
  digest family32 bytes

end ScriptLoader.Digest.Blake2
