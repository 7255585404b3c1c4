import ScriptLoader.Digest.Algorithm
import ScriptLoader.Loader.State

/-!
Settings: the directories of the baseline and the digest algorithm for signatures. They come from
given entries, which may be of any form, and from the environment, whose directories count where
no others are given. Every entry is examined, so all complaints are reported together.
-/

namespace ScriptLoader

/-- What was given for an entry, as far as its form matters. -/
inductive Given where
  | text (text : String)
  /-- A list, with `none` for every item that is no text. -/
  | list (items : List (Option String))
  | other
  deriving DecidableEq

structure Settings where
  searchPath : List String
  algorithm : Digest.Algorithm
  deriving DecidableEq

namespace Settings

inductive Entry where
  | searchPath
  | algorithm
  deriving DecidableEq

inductive Defect where
  | notAList
  | notAText
  | unusable (error : Digest.NameError)
  deriving DecidableEq

namespace Defect

def message : Defect → String
  | notAList => "Input should be a valid list"
  | notAText => "Input should be a valid string"
  | unusable error => "Value error, " ++ error.message

end Defect

structure Complaint where
  entry : Entry
  item : Option Nat
  defect : Defect
  deriving DecidableEq

def default : Settings := ⟨["."], .sha256⟩

/-- The items of a list from a number on that are no texts. -/
def itemComplaints : Nat → List (Option String) → List Complaint
  | _, [] => []
  | number, some _ :: rest => itemComplaints (number + 1) rest
  | number, none :: rest =>
    ⟨.searchPath, some number, .notAText⟩ :: itemComplaints (number + 1) rest

def readSearchPath : Option Given → Except (List Complaint) (List String)
  | none => .ok default.searchPath
  | some (.list items) =>
    match itemComplaints 0 items with
    | [] => .ok (items.filterMap id)
    | complaints => .error complaints
  | some _ => .error [⟨.searchPath, none, .notAList⟩]

def readAlgorithm : Option Given → Except (List Complaint) Digest.Algorithm
  | none => .ok default.algorithm
  | some (.text name) =>
    match Digest.Algorithm.ofName name with
    | .ok algorithm => .ok algorithm
    | .error error => .error [⟨.algorithm, none, .unusable error⟩]
  | some _ => .error [⟨.algorithm, none, .notAText⟩]

def ofGiven (searchPath algorithm : Option Given) : Except (List Complaint) Settings :=
  match readSearchPath searchPath, readAlgorithm algorithm with
  | .ok searchPath, .ok algorithm => .ok ⟨searchPath, algorithm⟩
  | .ok _, .error complaints => .error complaints
  | .error complaints, .ok _ => .error complaints
  | .error first, .error second => .error (first ++ second)

def variableName : String := "ILLOADER_PATH"

def environmentDirectories (value : Option String) : List String :=
  (((value.getD "").toList.splitOn ':').filter fun piece => !piece.isEmpty).map String.ofList

/-- The settings from given entries; the directories of the environment count if there are any
and no search path is given. -/
def ofEnvironment (value : Option String) (searchPath algorithm : Option Given) :
    Except (List Complaint) Settings :=
  match searchPath, environmentDirectories value with
  | none, directory :: rest => ofGiven (some (.list ((directory :: rest).map some))) algorithm
  | given, _ => ofGiven given algorithm

def loader {σ : Type} (settings : Settings) (machine : Machine) (host : σ) : Loader σ :=
  .start machine settings.algorithm settings.searchPath host

end Settings

end ScriptLoader
