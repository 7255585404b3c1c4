import ScriptLoader.Digest.Words

/-!
The SHA-1 digest.
-/

namespace ScriptLoader.Digest.Sha1

def rotateLeft (x n : UInt32) : UInt32 := x <<< n ||| x >>> (32 - n)

def schedule (block : List UInt8) : Array UInt32 :=
  let given := ((chunks 4 block).map fun bytes => (bigEndian bytes).toUInt32).toArray
  (List.range 64).foldl (fun words i =>
    let nth (k : Nat) := words.getD (i + k) 0
    words.push (rotateLeft (nth 13 ^^^ nth 8 ^^^ nth 2 ^^^ nth 0) 1)) given

def mix (round : Nat) (b c d : UInt32) : UInt32 :=
  if round < 20 then ((b &&& c) ||| (~~~b &&& d)) + 0x5a827999
  else if round < 40 then (b ^^^ c ^^^ d) + 0x6ed9eba1
  else if round < 60 then ((b &&& c) ||| (b &&& d) ||| (c &&& d)) + 0x8f1bbcdc
  else (b ^^^ c ^^^ d) + 0xca62c1d6

def compress (s : Vector UInt32 5) (block : List UInt8) : Vector UInt32 5 :=
  let words := schedule block
  let final := (List.range 80).foldl (fun (t : Vector UInt32 5) i =>
    #v[rotateLeft t[0] 5 + mix i t[1] t[2] t[3] + t[4] + words.getD i 0,
      t[0], rotateLeft t[1] 30, t[2], t[3]]) s
  s.zipWith (· + ·) final

def sha1 (bytes : List UInt8) : List UInt8 :=
  let message := bytes ++ padding 64 8 bytes.length ++ bigEndianBytes 8 (8 * bytes.length)
  let start : Vector UInt32 5 := #v[0x67452301, 0xefcdab89, 0x98badcfe, 0x10325476, 0xc3d2e1f0]
  ((chunks 64 message).foldl compress start).toList.flatMap fun x => bigEndianBytes 4 x.toNat

end ScriptLoader.Digest.Sha1
