import ScriptLoader.Files
import ScriptLoader.Fault.Basic

/-!
Resolution: which file a module's name means. Anchored names mean the canonical path that they
spell. Any other name is looked for in the directories of the search path, and the first regular
file wins.
-/

namespace ScriptLoader.Resolve

def candidate (directory requested : String) : String :=
  Path.join directory requested

def directory? (machine : Machine) (directories : List String) (requested : String) :
    Option String :=
  directories.find? fun directory => machine.isFile (candidate directory requested)

/-- The canonical path for a path. A user's name with a NUL character is as unreadable as any path
with one. -/
def canonical (machine : Machine) (path : String) : Except Fault String :=
  match Path.canonicalize? machine.toStandpoint path with
  | some canonical => .ok canonical
  | none => .error (.unreadable path .nulCharacter)

def resolve (machine : Machine) (directories : List String) (requested caller : String) :
    Except Fault String :=
  if Path.isAnchored requested then
    match canonical machine requested with
    | .error fault => .error fault
    | .ok path =>
      if machine.isPresent path then .ok path else .error (.notFound requested (some caller))
  else
    match directory? machine directories requested with
    | some directory => canonical machine (candidate directory requested)
    | none => .error (.notFound requested (some caller))

inductive Probe where
  | isFile (path : String) (answer : Bool)
  | isPresent (path : String) (answer : Bool)
  deriving DecidableEq

def fileProbes (machine : Machine) (requested : String) : List String → List Probe
  | [] => []
  | directory :: rest =>
    let path := candidate directory requested
    if machine.isFile path then [.isFile path true]
    else .isFile path false :: fileProbes machine requested rest

def probes (machine : Machine) (directories : List String) (requested : String) : List Probe :=
  if Path.isAnchored requested then
    match canonical machine requested with
    | .error _ => []
    | .ok path => [.isPresent path (machine.isPresent path)]
  else fileProbes machine requested directories

theorem canonical_error {machine : Machine} {path : String} {fault : Fault}
    (h : canonical machine path = .error fault) : fault = .unreadable path .nulCharacter := by
  unfold canonical at h
  split at h <;> simp_all

end ScriptLoader.Resolve
