import ScriptLoader.Digest.Words
import ScriptLoader.Digest.Primes

/-!
The SHA-2 digests. One description serves both word sizes; the constants are digits of the square
and cube roots of the first primes, and the shorter digests drop words of the longer ones.
-/

namespace ScriptLoader.Digest.Sha2

structure Family (word : Type) where
  blockSize : Nat
  lengthWidth : Nat
  constants : Array word
  ofBytes : List UInt8 → word
  toBytes : word → List UInt8
  bigSigma0 : word → word
  bigSigma1 : word → word
  smallSigma0 : word → word
  smallSigma1 : word → word

def rotateRight32 (x n : UInt32) : UInt32 := x >>> n ||| x <<< (32 - n)

def rotateRight64 (x n : UInt64) : UInt64 := x >>> n ||| x <<< (64 - n)

def family32 : Family UInt32 where
  blockSize := 64
  lengthWidth := 8
  constants := ((primes.take 64).map fun p => UInt32.ofNat (rootFraction 3 32 p)).toArray
  ofBytes bytes := (bigEndian bytes).toUInt32
  toBytes x := bigEndianBytes 4 x.toNat
  bigSigma0 x := rotateRight32 x 2 ^^^ rotateRight32 x 13 ^^^ rotateRight32 x 22
  bigSigma1 x := rotateRight32 x 6 ^^^ rotateRight32 x 11 ^^^ rotateRight32 x 25
  smallSigma0 x := rotateRight32 x 7 ^^^ rotateRight32 x 18 ^^^ x >>> 3
  smallSigma1 x := rotateRight32 x 17 ^^^ rotateRight32 x 19 ^^^ x >>> 10

def family64 : Family UInt64 where
  blockSize := 128
  lengthWidth := 16
  constants := ((primes.take 80).map fun p => UInt64.ofNat (rootFraction 3 64 p)).toArray
  ofBytes := bigEndian
  toBytes x := bigEndianBytes 8 x.toNat
  bigSigma0 x := rotateRight64 x 28 ^^^ rotateRight64 x 34 ^^^ rotateRight64 x 39
  bigSigma1 x := rotateRight64 x 14 ^^^ rotateRight64 x 18 ^^^ rotateRight64 x 41
  smallSigma0 x := rotateRight64 x 1 ^^^ rotateRight64 x 8 ^^^ x >>> 7
  smallSigma1 x := rotateRight64 x 19 ^^^ rotateRight64 x 61 ^^^ x >>> 6

section
variable {word : Type} [Inhabited word] [Add word] [AndOp word] [XorOp word] [Complement word]

@[specialize] def schedule (family : Family word) (block : List UInt8) : Array word :=
  let given := ((chunks (family.blockSize / 16) block).map family.ofBytes).toArray
  (List.range (family.constants.size - 16)).foldl (fun words i =>
    let nth (k : Nat) := words.getD (i + k) default
    words.push (family.smallSigma1 (nth 14) + nth 9 + family.smallSigma0 (nth 1) + nth 0)) given

@[specialize] def round (family : Family word) (s : Vector word 8) (input : word) :
    Vector word 8 :=
  let choice := (s[4] &&& s[5]) ^^^ (~~~s[4] &&& s[6])
  let majority := (s[0] &&& s[1]) ^^^ (s[0] &&& s[2]) ^^^ (s[1] &&& s[2])
  let first := s[7] + family.bigSigma1 s[4] + choice + input
  let second := family.bigSigma0 s[0] + majority
  #v[first + second, s[0], s[1], s[2], s[3] + first, s[4], s[5], s[6]]

@[specialize] def compress (family : Family word) (s : Vector word 8) (block : List UInt8) :
    Vector word 8 :=
  let words := schedule family block
  let final := (List.range family.constants.size).foldl (fun state i =>
    round family state (family.constants.getD i default + words.getD i default)) s
  s.zipWith (· + ·) final

@[specialize] def digest (family : Family word) (start : Vector word 8) (bytes : List UInt8) :
    List UInt8 :=
  let size := bytes.length
  let message := bytes ++ padding family.blockSize family.lengthWidth size ++
    bigEndianBytes family.lengthWidth (8 * size)
  ((chunks family.blockSize message).foldl (compress family) start).toList.flatMap family.toBytes

end

/-- Digits of the square roots of eight primes, from the given one on. -/
def start32 (skip first : Nat) : Vector UInt32 8 :=
  Vector.ofFn fun i =>
    UInt32.ofNat (rootFraction 2 (32 + skip) (primes.getD (first + i) 0))

def start64 (first : Nat) : Vector UInt64 8 :=
  Vector.ofFn fun i => UInt64.ofNat (rootFraction 2 64 (primes.getD (first + i) 0))

def sha256 (bytes : List UInt8) : List UInt8 :=
  digest family32 (start32 0 0) bytes

/-- Starts from the second 32 bits of the roots of the next eight primes. -/
def sha224 (bytes : List UInt8) : List UInt8 :=
  (digest family32 (start32 32 8) bytes).take 28

def sha512 (bytes : List UInt8) : List UInt8 :=
  digest family64 (start64 0) bytes

def sha384 (bytes : List UInt8) : List UInt8 :=
  (digest family64 (start64 8) bytes).take 48

end ScriptLoader.Digest.Sha2
