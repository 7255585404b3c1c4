import ScriptLoader.Digest.Md5
import ScriptLoader.Digest.Sha1
import ScriptLoader.Digest.Sha2
import ScriptLoader.Digest.Sha3
import ScriptLoader.Digest.Blake2

/-!
Digest algorithms by name. Names are compared without regard to case. Digests without a fixed
length are known and refused, since a signature needs one.
-/

namespace ScriptLoader.Digest

inductive Algorithm where
  | md5
  | sha1
  | sha224
  | sha256
  | sha384
  | sha512
  | sha3
  | blake2b
  | blake2s
  deriving DecidableEq

inductive NameError where
  | unknown (name : String)
  | noFixedLength (name : String)
  deriving DecidableEq

namespace NameError

def message : NameError → String
  | unknown name => "Unknown hash algorithm '" ++ name ++ "'."
  | noFixedLength name => "Hash algorithm '" ++ name ++ "' has no fixed digest size."

end NameError

namespace Algorithm

def all : List Algorithm :=
  [md5, sha1, sha224, sha256, sha384, sha512, sha3, blake2b, blake2s]

def name : Algorithm → String
  | md5 => "md5"
  | sha1 => "sha1"
  | sha224 => "sha224"
  | sha256 => "sha256"
  | sha384 => "sha384"
  | sha512 => "sha512"
  | sha3 => "sha3_256"
  | blake2b => "blake2b"
  | blake2s => "blake2s"

def digest : Algorithm → List UInt8 → List UInt8
  | md5 => Md5.md5
  | sha1 => Sha1.sha1
  | sha224 => Sha2.sha224
  | sha256 => Sha2.sha256
  | sha384 => Sha2.sha384
  | sha512 => Sha2.sha512
  | sha3 => Sha3.sha3
  | blake2b => Blake2.blake2b
  | blake2s => Blake2.blake2s

def variableLength : List String := ["shake_128", "shake_256", "shake128"]

/-- The lower case of a character, as far as it is an ASCII letter. The Kelvin sign is the one
letter outside ASCII of which that is true. -/
def lower (c : Char) : Char :=
  if c = '\u212a' then 'k' else c.toLower

def ofName (name : String) : Except NameError Algorithm :=
  let plain := String.ofList (name.toList.map lower)
  match all.find? fun algorithm => algorithm.name == plain with
  | some algorithm => .ok algorithm
  | none => .error (if plain ∈ variableLength then .noFixedLength name else .unknown name)

end Algorithm

end ScriptLoader.Digest
