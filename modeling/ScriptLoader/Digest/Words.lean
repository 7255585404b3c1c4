/-!
Words and blocks of bytes, as message digests cut and join them.
-/

namespace ScriptLoader.Digest

def bigEndian (bytes : List UInt8) : UInt64 :=
  bytes.foldl (fun word byte => word <<< 8 ||| byte.toUInt64) 0

def littleEndian (bytes : List UInt8) : UInt64 :=
  bytes.foldr (fun byte word => word <<< 8 ||| byte.toUInt64) 0

def littleEndianBytes (count number : Nat) : List UInt8 :=
  (List.range count).map fun i => UInt8.ofNat (number >>> (8 * i))

def bigEndianBytes (count number : Nat) : List UInt8 :=
  (littleEndianBytes count number).reverse

def chunks {α : Type} (length : Nat) (xs : List α) : List (List α) :=
  if h : length = 0 ∨ xs = [] then []
  else
    have : (xs.drop length).length < xs.length := by
      have hx : xs.length ≠ 0 := by simpa using fun hn => h (.inr hn)
      simp only [List.length_drop]
      omega
    xs.take length :: chunks length (xs.drop length)
termination_by xs.length

/-- The bit after the message, and zeros as far as a length field of the given width still fits
into the last block. -/
def padding (block lengthWidth size : Nat) : List UInt8 :=
  0x80 :: List.replicate ((block - (size + 1 + lengthWidth) % block) % block) 0

def hexDigit (n : UInt8) : Char :=
  if n < 10 then Char.ofNat (n.toNat + 0x30) else Char.ofNat (n.toNat + 0x57)

def hex (bytes : List UInt8) : String :=
  String.ofList (bytes.flatMap fun (byte : UInt8) =>
    [hexDigit (byte >>> 4), hexDigit (byte &&& 0xf)])

@[simp] theorem length_littleEndianBytes (count number : Nat) :
    (littleEndianBytes count number).length = count := by
  simp [littleEndianBytes]

@[simp] theorem length_bigEndianBytes (count number : Nat) :
    (bigEndianBytes count number).length = count := by
  simp [bigEndianBytes]

end ScriptLoader.Digest
