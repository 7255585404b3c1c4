import ScriptLoader.Path.Canonical
import ScriptLoader.Text.Quoted

/-!
Files on a machine. The files and directories form a tree without links; a path is looked up part
by part, and each part is entered only from a directory that exists. So a path that leads through
a missing directory or through a file leads nowhere, even if a later part steps back up.
-/

namespace ScriptLoader

-- Bytes are compared as arrays, whatever else is imported.
instance (priority := high) decidableEqByteArray : DecidableEq ByteArray := fun _ _ =>
  decidable_of_iff _ ByteArray.ext_iff.symm

structure Content where
  bytes : ByteArray
  readable : Bool
  deriving DecidableEq

namespace Content

def ofText (text : String) : Content := ⟨text.toUTF8, true⟩

end Content

inductive Node where
  | file (content : Content)
  /-- What opens and reads like a file and is no regular one. -/
  | device (content : Content)
  | directory
  deriving DecidableEq

namespace Node

def content? : Node → Option Content
  | file content => some content
  | device content => some content
  | directory => none

@[simp] theorem content?_file (content : Content) : (file content).content? = some content := rfl

@[simp] theorem content?_device (content : Content) :
    (device content).content? = some content := rfl

@[simp] theorem content?_directory : directory.content? = none := rfl

end Node

/-- What there is at each place, one node for a place. -/
structure Files where
  nodes : List (Place × Node)

namespace Files

def empty : Files := ⟨[]⟩

def node? (files : Files) (place : Place) : Option Node :=
  files.nodes.lookup place

/-- Takes away what is at a place. What is below it stays, but no path leads there any more until
the place is a directory again. -/
def remove (files : Files) (place : Place) : Files :=
  ⟨files.nodes.filter fun entry => entry.1 != place⟩

def put (files : Files) (place : Place) (node : Node) : Files :=
  ⟨(place, node) :: (files.remove place).nodes⟩

/-- Makes directories of a place and of all above it, except where there is something already. -/
def makeDirectory (files : Files) : Place → Files
  | [] => if (files.node? []).isSome then files else files.put [] .directory
  | name :: above =>
    let files := files.makeDirectory above
    if (files.node? (name :: above)).isSome then files else files.put (name :: above) .directory

/-- Replaces what is at a place, or adds the place and the directories above it. -/
def install (files : Files) (place : Place) (node : Node) : Files :=
  (files.makeDirectory place.tail).put place node

def write (files : Files) (place : Place) (content : Content) : Files :=
  files.install place (.file content)

/-- The files with the given contents, with some directories and all that the files need. -/
def build (directories : List Place) (contents : List (Place × Content)) : Files :=
  contents.foldl (fun files entry => files.write entry.1 entry.2)
    (directories.foldl makeDirectory (empty.makeDirectory []))

def count (files : Files) : Nat :=
  (files.nodes.filter fun entry => entry.2 != .directory).length

@[simp] theorem node?_remove_self (files : Files) (place : Place) :
    (files.remove place).node? place = none := by
  simp only [node?, remove]
  induction files.nodes with
  | nil => rfl
  | cons entry rest ih =>
      obtain ⟨key, node⟩ := entry
      by_cases h : key = place
      · subst h; simpa using ih
      · simpa [h, List.lookup_cons, beq_false_of_ne (Ne.symm h)] using ih

@[simp] theorem node?_put_self (files : Files) (place : Place) (node : Node) :
    (files.put place node).node? place = some node := by
  simp [put, node?]

end Files

inductive AccessError where
  | absent
  | throughFile
  | directory
  | denied
  | nulCharacter
  deriving DecidableEq

namespace AccessError

def message (path : String) : AccessError → String
  | absent => "[Errno 2] No such file or directory: " ++ Text.quoted path
  | throughFile => "[Errno 20] Not a directory: " ++ Text.quoted path
  | directory => "[Errno 21] Is a directory: " ++ Text.quoted path
  | denied => "[Errno 13] Permission denied: " ++ Text.quoted path
  | nulCharacter => "embedded null byte"

end AccessError

namespace Files

def walk (files : Files) : Place → List String → Except AccessError Place
  | place, [] => .ok place
  | place, part :: rest =>
    match files.node? place with
    | some .directory => walk files (Path.enter place part) rest
    | some _ => .error .throughFile
    | none => .error .absent

@[simp] theorem walk_nil (files : Files) (place : Place) : files.walk place [] = .ok place := rfl

/-- A walk that arrives ends where its parts lead. -/
theorem eq_foldl_of_walk {files : Files} {place goal : Place} {names : List String}
    (h : files.walk place names = .ok goal) : goal = names.foldl Path.enter place := by
  induction names generalizing place with
  | nil => simpa [walk, eq_comm] using h
  | cons part rest ih =>
      simp only [walk] at h
      split at h
      · exact ih h
      · simp at h
      · simp at h

end Files

/-- The files, and what relative and home-relative paths depend on. -/
structure Machine extends Standpoint where
  files : Files

namespace Machine

def fullPath (machine : Machine) (path : String) : String :=
  if Path.isAbsolute path then path else machine.workingDirectory ++ "/" ++ path

def locate (machine : Machine) (path : String) : Except AccessError Place :=
  if path = "" then .error .absent
  else if '\x00' ∈ path.toList then .error .nulCharacter
  else
    match machine.files.walk [] (Path.parts (machine.fullPath path)).tail with
    | .error e => .error e
    | .ok place => if (machine.files.node? place).isSome then .ok place else .error .absent

def node (machine : Machine) (path : String) : Except AccessError Node :=
  match machine.locate path with
  | .error e => .error e
  | .ok place =>
    match machine.files.node? place with
    | some node => .ok node
    | none => .error .absent

def isFile (machine : Machine) (path : String) : Bool :=
  match machine.node path with
  | .ok (.file _) => true
  | _ => false

def isDevice (machine : Machine) (path : String) : Bool :=
  match machine.node path with
  | .ok (.device _) => true
  | _ => false

def isPresent (machine : Machine) (path : String) : Bool :=
  (machine.node path).toBool

def read (machine : Machine) (path : String) : Except AccessError ByteArray :=
  match machine.node path with
  | .error e => .error e
  | .ok node =>
    match node.content? with
    | none => .error .directory
    | some content => if content.readable then .ok content.bytes else .error .denied

/-- A change made to the machine from outside the loader. -/
inductive Edit where
  | write (path : String) (content : Content)
  | makeDevice (path : String) (content : Content)
  | remove (path : String)
  | makeDirectory (path : String)
  | changeDirectory (path : String)
  | changeHome (path : String)

/-- The working directory always exists. -/
def edit (machine : Machine) : Edit → Machine
  | .write path content =>
    { machine with files := machine.files.write (Path.destination path) content }
  | .makeDevice path content =>
    { machine with files := machine.files.install (Path.destination path) (.device content) }
  | .remove path => { machine with files := machine.files.remove (Path.destination path) }
  | .makeDirectory path =>
    { machine with files := machine.files.makeDirectory (Path.destination path) }
  | .changeDirectory path =>
    { machine with
      workingDirectory := path
      files := machine.files.makeDirectory (Path.destination path) }
  | .changeHome path => { machine with home := path }

theorem isPresent_of_isFile {machine : Machine} {path : String}
    (h : machine.isFile path = true) : machine.isPresent path = true := by
  unfold isFile at h
  unfold isPresent
  split at h
  · rename_i hn; simp [hn, Except.toBool]
  · simp at h

end Machine

end ScriptLoader
