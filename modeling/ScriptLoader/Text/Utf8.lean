/-!
Strict UTF-8. Bytes are read one at a time; a sequence that is begun says how many bytes it still
needs and which ones it admits next, so that overlong forms, surrogates and numbers above the last
code point are refused at the first byte that cannot belong to them.
-/

namespace ScriptLoader.Text.Utf8

inductive Defect where
  | invalidStart
  | invalidContinuation
  | unexpectedEnd
  deriving DecidableEq

/-- The bytes at which reading stops: the broken sequence as far as it was sound. -/
structure Failure where
  position : Nat
  length : Nat
  firstByte : UInt8
  defect : Defect
  deriving DecidableEq

/-- A sequence that has begun: where and with which byte, how many of its bytes are read and how
many are missing, between which bounds the next one lies, and the number so far. -/
structure Pending where
  position : Nat
  firstByte : UInt8
  taken : Nat
  missing : Nat
  low : UInt8
  high : UInt8
  value : Nat

def Pending.ofStart? (position : Nat) (byte : UInt8) : Option Pending :=
  let begin (missing : Nat) (low high : UInt8) (value : Nat) : Option Pending :=
    some ⟨position, byte, 1, missing, low, high, value⟩
  let b := byte.toNat
  if 0xc2 ≤ b ∧ b ≤ 0xdf then begin 1 0x80 0xbf (b - 0xc0)
  else if b = 0xe0 then begin 2 0xa0 0xbf 0
  else if b = 0xed then begin 2 0x80 0x9f 0xd
  else if 0xe1 ≤ b ∧ b ≤ 0xef then begin 2 0x80 0xbf (b - 0xe0)
  else if b = 0xf0 then begin 3 0x90 0xbf 0
  else if 0xf1 ≤ b ∧ b ≤ 0xf3 then begin 3 0x80 0xbf (b - 0xf0)
  else if b = 0xf4 then begin 3 0x80 0x8f 4
  else none

def Pending.failure (pending : Pending) (defect : Defect) : Failure :=
  ⟨pending.position, pending.taken, pending.firstByte, defect⟩

/-- Reads on from a position, perhaps inside a sequence; `read` holds the characters so far, the
last one first. -/
def decodeFrom (position : Nat) (pending? : Option Pending) (read : List Char) :
    List UInt8 → Except Failure (List Char)
  | [] =>
    match pending? with
    | none => .ok read.reverse
    | some pending => .error (pending.failure .unexpectedEnd)
  | byte :: rest =>
    match pending? with
    | none =>
      if byte.toNat < 0x80 then
        decodeFrom (position + 1) none (Char.ofNat byte.toNat :: read) rest
      else
        match Pending.ofStart? position byte with
        | some pending => decodeFrom (position + 1) (some pending) read rest
        | none => .error ⟨position, 1, byte, .invalidStart⟩
    | some pending =>
      if pending.low ≤ byte ∧ byte ≤ pending.high then
        let value := pending.value * 64 + (byte.toNat - 0x80)
        if pending.missing = 1 then
          decodeFrom (position + 1) none (Char.ofNat value :: read) rest
        else
          let pending := { pending with
            taken := pending.taken + 1
            missing := pending.missing - 1
            low := 0x80
            high := 0xbf
            value := value }
          decodeFrom (position + 1) (some pending) read rest
      else .error (pending.failure .invalidContinuation)

def decode (bytes : List UInt8) : Except Failure (List Char) :=
  decodeFrom 0 none [] bytes

namespace Defect

def reason : Defect → String
  | invalidStart => "invalid start byte"
  | invalidContinuation => "invalid continuation byte"
  | unexpectedEnd => "unexpected end of data"

end Defect

namespace Failure

def message (failure : Failure) : String :=
  let place :=
    if failure.length = 1 then
      "byte 0x" ++ String.ofList (Nat.toDigits 16 failure.firstByte.toNat) ++ " in position " ++
        toString failure.position
    else
      "bytes in position " ++ toString failure.position ++ "-" ++
        toString (failure.position + failure.length - 1)
  "'utf-8' codec can't decode " ++ place ++ ": " ++ failure.defect.reason

end Failure

end ScriptLoader.Text.Utf8
