import ScriptLoader.Path.Basic

/-!
Canonical paths. A path becomes canonical by expanding a leading home marker, putting the working
directory in front if it is relative, and normalizing. Canonical paths name modules.

Nothing but the text of a path and the standpoint decides about its canonical form. What is at the
path does not matter.
-/

namespace ScriptLoader

structure Standpoint where
  workingDirectory : String
  home : String
  /-- The users that are known, with their home directories. -/
  users : List (String × String) := []
  deriving DecidableEq

/-- The home directory of a user, if the user is known. No name means the one whose standpoint it
is. -/
def Standpoint.homeOf? (here : Standpoint) (user : String) : Option String :=
  if user = "" then some here.home else here.users.lookup user

@[simp] theorem Standpoint.homeOf?_empty (here : Standpoint) :
    here.homeOf? "" = some here.home := rfl

namespace Path

/-- Absolute and home-relative paths bypass the search path. -/
def isAnchored (path : String) : Bool :=
  isAbsolute path || path.toList.head? == some '~'

def dropTrailingSlashes (path : String) : String :=
  String.ofList (path.toList.reverse.dropWhile (· == '/')).reverse

/-- The name behind a tilde in front, up to the next slash, and what comes behind the name. -/
def splitHome? (path : String) : Option (List Char × List Char) :=
  match path.toList with
  | '~' :: rest => some (rest.takeWhile (· != '/'), rest.dropWhile (· != '/'))
  | _ => none

def home? (here : Standpoint) (path : String) : Option String :=
  (splitHome? path).bind fun split => here.homeOf? (String.ofList split.1)

/-- A tilde means the home directory of the user whose name stands behind it. The path of an unknown
user stays as it is, as does any path without a tilde in front. A name with a NUL character cannot
even be asked for. -/
def expandHome? (here : Standpoint) (path : String) : Option String :=
  match splitHome? path with
  | some (user, rest) =>
    if '\x00' ∈ user then none
    else
      match here.homeOf? (String.ofList user) with
      | some home =>
        let expanded := dropTrailingSlashes home ++ String.ofList rest
        some (if expanded = "" then "/" else expanded)
      | none => some path
  | none => some path

def absolutize (workingDirectory path : String) : String :=
  normalize (if isAbsolute path then path else join workingDirectory path)

def canonicalize? (here : Standpoint) (path : String) : Option String :=
  (expandHome? here path).map (absolutize here.workingDirectory)

def Canonical (path : String) : Prop :=
  isAbsolute path = true ∧ normalize path = path

instance (path : String) : Decidable (Canonical path) :=
  inferInstanceAs (Decidable (_ ∧ _))

theorem splitHome?_eq_none_iff {path : String} :
    splitHome? path = none ↔ path.toList.head? ≠ some '~' := by
  rcases hpath : path.toList with _ | ⟨c, rest⟩
  · simp [splitHome?, hpath]
  · by_cases hc : c = '~' <;> simp [splitHome?, hpath, hc]

@[simp] theorem expandHome?_of_head_ne {path : String} (h : path.toList.head? ≠ some '~')
    (here : Standpoint) : expandHome? here path = some path := by
  simp only [expandHome?, splitHome?_eq_none_iff.mpr h]

/-- A name ends at a slash or with the path. -/
theorem splitHome?_eq_some_iff {path : String} {user rest : List Char} :
    splitHome? path = some (user, rest) ↔
      path.toList = '~' :: (user ++ rest) ∧ '/' ∉ user ∧ (rest = [] ∨ rest.head? = some '/') := by
  constructor
  · intro h
    unfold splitHome? at h
    split at h
    · rename_i behind hpath
      cases h
      refine ⟨by rw [List.takeWhile_append_dropWhile, hpath], fun hmem => ?_, ?_⟩
      · simpa using List.all_eq_true.mp List.all_takeWhile _ hmem
      · rcases hrest : behind.dropWhile (· != '/') with _ | ⟨c, others⟩
        · exact .inl rfl
        · have hstop := List.head?_dropWhile_not (· != '/') behind
          rw [hrest] at hstop
          exact .inr (by simpa using hstop)
    · cases h
  · rintro ⟨hpath, plain, ends⟩
    have hstop : rest.takeWhile (· != '/') = [] ∧ rest.dropWhile (· != '/') = rest := by
      rcases rest with _ | ⟨c, behind⟩
      · exact ⟨rfl, rfl⟩
      · obtain rfl : c = '/' := by simpa using ends
        exact ⟨rfl, rfl⟩
    have huser : ∀ c ∈ user, (c != '/') = true := fun c hc =>
      bne_iff_ne.mpr fun heq => plain (heq ▸ hc)
    simp only [splitHome?, hpath, List.takeWhile_append_of_pos huser,
      List.dropWhile_append_of_pos huser, hstop, List.append_nil]

theorem canonicalize?_of_head_ne {path : String} (h : path.toList.head? ≠ some '~')
    (here : Standpoint) :
    canonicalize? here path = some (absolutize here.workingDirectory path) := by
  simp [canonicalize?, h]

end Path

end ScriptLoader
