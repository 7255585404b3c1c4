import ScriptLoader.Digest.Algorithm
import ScriptLoader.Files
import ScriptLoader.Fault.Basic

/-!
The module cache: the signature that each module's file had when it was last checked. A file that
could not be read is recorded without a signature; such a record keeps its place but counts as
loaded nowhere.
-/

namespace ScriptLoader

/-- The digest of a file's bytes, in hexadecimal digits. -/
abbrev Signature := String

namespace Machine

/-- The signature of a file as it is now, if it can be read. Only a path with a NUL character
cannot even be looked up. -/
def signature (machine : Machine) (algorithm : Digest.Algorithm) (path : String) :
    Except Fault (Option Signature) :=
  match machine.read path with
  | .ok bytes => .ok (some (Digest.hex (algorithm.digest bytes.data.toList)))
  | .error .nulCharacter => .error (.unreadable path .nulCharacter)
  | .error _ => .ok none

end Machine

namespace Machine

/-- A path with a file at it contains no NUL character, so its signature can be asked for. -/
theorem exists_signature_of_isFile {machine : Machine} {path : String}
    (h : machine.isFile path = true) (algorithm : Digest.Algorithm) :
    ∃ signature, machine.signature algorithm path = .ok signature := by
  unfold isFile at h
  unfold signature read
  split at h
  · rename_i content hnode
    rw [hnode]
    by_cases hr : content.readable = true
    · exact ⟨_, by simp [hr]; rfl⟩
    · exact ⟨none, by simp [hr]⟩
  · cases h

end Machine

/-- The records in the order in which their paths were first checked. -/
structure Cache where
  algorithm : Digest.Algorithm
  records : List (String × Option Signature)

namespace Cache

def empty (algorithm : Digest.Algorithm) : Cache := ⟨algorithm, []⟩

def signatureOf (cache : Cache) (path : String) : Option Signature :=
  (cache.records.lookup path).getD none

def contains (cache : Cache) (path : String) : Bool :=
  (cache.signatureOf path).isSome

def paths (cache : Cache) : List String :=
  (cache.records.filter fun record => record.2.isSome).map (·.1)

def size (cache : Cache) : Nat :=
  cache.paths.length

/-- Records a signature; a path that is recorded already keeps its place. -/
def record (cache : Cache) (path : String) (signature : Option Signature) : Cache :=
  { cache with
    records :=
      if (cache.records.lookup path).isSome then
        cache.records.map fun old => if old.1 = path then (path, signature) else old
      else cache.records ++ [(path, signature)] }

def forget (cache : Cache) (path : String) : Bool × Cache :=
  ((cache.records.lookup path).isSome,
    { cache with records := cache.records.filter fun old => old.1 ≠ path })

def reset (cache : Cache) : Cache := empty cache.algorithm

def notCanonical (path : String) : Fault :=
  .internal ("Module cache keys must be canonical absolute paths, got '" ++ path ++ "'.")

/-- Whether a file has the signature that it had at the last check; the signature that it has now
is recorded in any case. -/
def check (cache : Cache) (machine : Machine) (path : String) : Except Fault (Bool × Cache) :=
  if Path.Canonical path then
    match machine.signature cache.algorithm path with
    | .error fault => .error fault
    | .ok signature =>
      let previous := cache.signatureOf path
      .ok (previous.isSome && previous == signature, cache.record path signature)
  else .error (notCanonical path)

@[simp] theorem signatureOf_reset (cache : Cache) (path : String) :
    cache.reset.signatureOf path = none := rfl

@[simp] theorem paths_reset (cache : Cache) : cache.reset.paths = [] := rfl

theorem check_of_signature {cache : Cache} {machine : Machine} {path : String}
    {signature : Option Signature} (hpath : Path.Canonical path)
    (hsig : machine.signature cache.algorithm path = .ok signature) :
    cache.check machine path =
      .ok ((cache.signatureOf path).isSome && cache.signatureOf path == signature,
        cache.record path signature) := by
  simp only [check, if_pos hpath, hsig]

theorem check_of_not_canonical {cache : Cache} {machine : Machine} {path : String}
    (hpath : ¬Path.Canonical path) : cache.check machine path = .error (notCanonical path) := by
  simp only [check, if_neg hpath]

theorem lookup_record_self (cache : Cache) (path : String) (signature : Option Signature) :
    (cache.record path signature).records.lookup path = some signature := by
  have hmap (records : List (String × Option Signature))
      (h : (records.lookup path).isSome = true) :
      (records.map fun old => if old.1 = path then (path, signature) else old).lookup path =
        some signature := by
    induction records with
    | nil => simp at h
    | cons old rest ih =>
        obtain ⟨key, value⟩ := old
        by_cases hkey : key = path
        · simp [hkey]
        · have hne : (path == key) = false := beq_false_of_ne (Ne.symm hkey)
          simp only [List.lookup_cons, hne] at h
          simpa [hkey, List.lookup_cons, hne] using ih h
  unfold record
  by_cases h : (cache.records.lookup path).isSome = true
  · simp only [if_pos h]
    exact hmap _ h
  · have hnone : cache.records.lookup path = none := Option.not_isSome_iff_eq_none.mp h
    simp [hnone, List.lookup_append]

theorem lookup_record_of_ne {path other : String} (h : other ≠ path) (cache : Cache)
    (signature : Option Signature) :
    (cache.record path signature).records.lookup other = cache.records.lookup other := by
  have hbeq : (other == path) = false := beq_false_of_ne h
  unfold record
  split
  · simp only
    induction cache.records with
    | nil => rfl
    | cons old rest ih =>
        obtain ⟨key, value⟩ := old
        by_cases hkey : key = path
        · simp [hkey, List.lookup_cons, hbeq, ih]
        · simp only [List.map_cons, if_neg hkey, List.lookup_cons, ih]
  · simp [List.lookup_append, List.lookup_cons, hbeq]

@[simp] theorem signatureOf_record_self (cache : Cache) (path : String)
    (signature : Option Signature) :
    (cache.record path signature).signatureOf path = signature := by
  simp only [signatureOf, lookup_record_self, Option.getD_some]

@[simp] theorem signatureOf_record_of_ne {path other : String} (h : other ≠ path) (cache : Cache)
    (signature : Option Signature) :
    (cache.record path signature).signatureOf other = cache.signatureOf other := by
  simp only [signatureOf, lookup_record_of_ne h]

theorem lookup_forget_self (cache : Cache) (path : String) :
    (cache.forget path).2.records.lookup path = none := by
  simp only [forget]
  induction cache.records with
  | nil => rfl
  | cons old rest ih =>
      obtain ⟨key, value⟩ := old
      by_cases hkey : key = path
      · simpa [hkey] using ih
      · simpa [hkey, List.lookup_cons, beq_false_of_ne (Ne.symm hkey)] using ih

theorem lookup_forget_of_ne {path other : String} (h : other ≠ path) (cache : Cache) :
    (cache.forget path).2.records.lookup other = cache.records.lookup other := by
  simp only [forget]
  induction cache.records with
  | nil => rfl
  | cons old rest ih =>
      obtain ⟨key, value⟩ := old
      by_cases hkey : key = path
      · simpa [hkey, List.lookup_cons, beq_false_of_ne h] using ih
      · have hkeep : decide (key ≠ path) = true := by simpa using hkey
        simp only [List.filter_cons, hkeep, if_true, List.lookup_cons, ih]

@[simp] theorem algorithm_record (cache : Cache) (path : String) (signature : Option Signature) :
    (cache.record path signature).algorithm = cache.algorithm := rfl

end Cache

end ScriptLoader
