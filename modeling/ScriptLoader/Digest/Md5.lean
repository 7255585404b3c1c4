import ScriptLoader.Digest.Words

/-!
The MD5 digest.
-/

namespace ScriptLoader.Digest.Md5

/-- The first 32 bits after the point of the sines of 1 to 64, without their signs. -/
def sines : Array UInt32 :=
  #[0xd76aa478, 0xe8c7b756, 0x242070db, 0xc1bdceee, 0xf57c0faf, 0x4787c62a, 0xa8304613, 0xfd469501,
    0x698098d8, 0x8b44f7af, 0xffff5bb1, 0x895cd7be, 0x6b901122, 0xfd987193, 0xa679438e, 0x49b40821,
    0xf61e2562, 0xc040b340, 0x265e5a51, 0xe9b6c7aa, 0xd62f105d, 0x02441453, 0xd8a1e681, 0xe7d3fbc8,
    0x21e1cde6, 0xc33707d6, 0xf4d50d87, 0x455a14ed, 0xa9e3e905, 0xfcefa3f8, 0x676f02d9, 0x8d2a4c8a,
    0xfffa3942, 0x8771f681, 0x6d9d6122, 0xfde5380c, 0xa4beea44, 0x4bdecfa9, 0xf6bb4b60, 0xbebfbc70,
    0x289b7ec6, 0xeaa127fa, 0xd4ef3085, 0x04881d05, 0xd9d4d039, 0xe6db99e5, 0x1fa27cf8, 0xc4ac5665,
    0xf4292244, 0x432aff97, 0xab9423a7, 0xfc93a039, 0x655b59c3, 0x8f0ccc92, 0xffeff47d, 0x85845dd1,
    0x6fa87e4f, 0xfe2ce6e0, 0xa3014314, 0x4e0811a1, 0xf7537e82, 0xbd3af235, 0x2ad7d2bb, 0xeb86d391]

def rotations : Array UInt32 :=
  #[7, 12, 17, 22, 5, 9, 14, 20, 4, 11, 16, 23, 6, 10, 15, 21]

def rotateLeft (x n : UInt32) : UInt32 := x <<< n ||| x >>> (32 - n)

def mix (round : Nat) (b c d : UInt32) : UInt32 × Nat :=
  if round < 16 then ((b &&& c) ||| (~~~b &&& d), round)
  else if round < 32 then ((d &&& b) ||| (~~~d &&& c), (5 * round + 1) % 16)
  else if round < 48 then (b ^^^ c ^^^ d, (3 * round + 5) % 16)
  else (c ^^^ (b ||| ~~~d), 7 * round % 16)

def compress (s : Vector UInt32 4) (block : List UInt8) : Vector UInt32 4 :=
  let words := ((chunks 4 block).map fun bytes => (littleEndian bytes).toUInt32).toArray
  let final := (List.range 64).foldl (fun (t : Vector UInt32 4) i =>
    let mixed := mix i t[1] t[2] t[3]
    let sum := t[0] + mixed.1 + sines.getD i 0 + words.getD mixed.2 0
    #v[t[3], t[1] + rotateLeft sum (rotations.getD (4 * (i / 16) + i % 4) 0), t[1], t[2]]) s
  s.zipWith (· + ·) final

def md5 (bytes : List UInt8) : List UInt8 :=
  let message := bytes ++ padding 64 8 bytes.length ++ littleEndianBytes 8 (8 * bytes.length)
  let start : Vector UInt32 4 := #v[0x67452301, 0xefcdab89, 0x98badcfe, 0x10325476]
  ((chunks 64 message).foldl compress start).toList.flatMap fun x => littleEndianBytes 4 x.toNat

end ScriptLoader.Digest.Md5
