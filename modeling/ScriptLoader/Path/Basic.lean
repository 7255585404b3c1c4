/-!
Paths as texts. A path is cut into parts at its slashes; reading the parts in order, each one
leads from one place to the next. A place is named by the names that lead to it from the root.

`enter` is the one rule for a part. Normal forms of paths and the walk through a directory tree
both fold it over the parts, so that the two agree on where a path leads.
-/

namespace ScriptLoader

/-- The names that lead from the root to a place, the last one first. -/
abbrev Place := List String

namespace Path

def parts (path : String) : List String :=
  (path.toList.splitOn '/').map String.ofList

/-- Where a part leads: nowhere if it is empty or a dot, one level up if it is two dots, and
else one level down. Above the root there is the root. -/
def enter (place : Place) (part : String) : Place :=
  if part = "" ∨ part = "." then place
  else if part = ".." then place.tail
  else part :: place

/-- In a path without a root, a step up cancels the name before it and is kept if there is none. -/
def enterRelative (kept : Place) (part : String) : Place :=
  if part = ".." ∧ (kept = [] ∨ kept.head? = some "..") then ".." :: kept
  else enter kept part

def destination (path : String) : Place :=
  (parts path).foldl enter []

/-- Exactly two leading slashes are a root of their own; any other number of them is one root. -/
def root : List Char → String
  | '/' :: '/' :: '/' :: _ => "/"
  | '/' :: '/' :: _ => "//"
  | '/' :: _ => "/"
  | _ => ""

def isAbsolute (path : String) : Bool :=
  path.toList.head? == some '/'

/-- The shortest spelling of a path: no empty parts, no dots, and steps up only at the start of a
relative path. -/
def normalize (path : String) : String :=
  let root := root path.toList
  let names := (parts path).foldl (if root = "" then enterRelative else enter) []
  let text := root ++ "/".intercalate names.reverse
  if text = "" then "." else text

def join (directory name : String) : String :=
  if isAbsolute name then name
  else if directory = "" ∨ directory.toList.getLast? = some '/' then directory ++ name
  else directory ++ "/" ++ name

def beforeLastSlash : List Char → Option (List Char)
  | [] => none
  | c :: rest =>
    match beforeLastSlash rest with
    | some front => some (c :: front)
    | none => if c = '/' then some [] else none

/-- The directory of a file: the text before the last slash, the root if nothing stands before
it, and the working directory if there is no slash. -/
def directoryOf (path : String) : String :=
  match beforeLastSlash path.toList with
  | none => "."
  | some [] => "/"
  | some front => String.ofList front

def baseName (path : String) : String :=
  (parts path).getLastD ""

@[simp] theorem enter_empty (place : Place) : enter place "" = place := by simp [enter]

@[simp] theorem enter_dot (place : Place) : enter place "." = place := by simp [enter]

@[simp] theorem enter_up (place : Place) : enter place ".." = place.tail := by
  simp [enter]

@[simp] theorem enter_name {part : String} (h₁ : part ≠ "") (h₂ : part ≠ ".") (h₃ : part ≠ "..")
    (place : Place) : enter place part = part :: place := by
  simp [enter, h₁, h₂, h₃]

end Path

end ScriptLoader
