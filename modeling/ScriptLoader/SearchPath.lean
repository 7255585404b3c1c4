import ScriptLoader.Path.Basic
import ScriptLoader.Text.Quoted

/-!
The search path: the directories in which names are looked up, in order. It has two segments. The
baseline is configured from outside; the injected segment holds one directory for each active
load, newest first, and is searched before the baseline.

A search path is a value, so it is its own snapshot, and restoring one is replacing the other.
-/

namespace ScriptLoader

structure SearchPath where
  injected : List String
  baseline : List String
  deriving DecidableEq

namespace SearchPath

def ofBaseline (directories : List String) : SearchPath := ⟨[], directories⟩

def directories (searchPath : SearchPath) : List String :=
  searchPath.injected ++ searchPath.baseline

def setBaseline (searchPath : SearchPath) (directories : List String) : SearchPath :=
  { searchPath with baseline := directories }

def appendBaseline (searchPath : SearchPath) (directory : String) : SearchPath :=
  searchPath.setBaseline (searchPath.baseline ++ [directory])

def prependBaseline (searchPath : SearchPath) (directory : String) : SearchPath :=
  searchPath.setBaseline (directory :: searchPath.baseline)

def inject (searchPath : SearchPath) (file : String) : SearchPath :=
  { searchPath with injected := Path.directoryOf file :: searchPath.injected }

/-- Runs a body with the directory of a file in front, and puts the search path back as it was,
whatever the body did to it and however it ended. -/
def augmented {α : Type} (searchPath : SearchPath) (file : String)
    (body : SearchPath → α × SearchPath) : α × SearchPath :=
  ((body (searchPath.inject file)).1, searchPath)

def describe (searchPath : SearchPath) : String :=
  "SearchPath(injected=" ++ Text.quotedList searchPath.injected ++ ", baseline=" ++
    Text.quotedList searchPath.baseline ++ ")"

@[simp] theorem directories_ofBaseline (directories : List String) :
    (ofBaseline directories).directories = directories := rfl

@[simp] theorem directories_inject (searchPath : SearchPath) (file : String) :
    (searchPath.inject file).directories = Path.directoryOf file :: searchPath.directories := rfl

@[simp] theorem baseline_inject (searchPath : SearchPath) (file : String) :
    (searchPath.inject file).baseline = searchPath.baseline := rfl

@[simp] theorem injected_setBaseline (searchPath : SearchPath) (directories : List String) :
    (searchPath.setBaseline directories).injected = searchPath.injected := rfl

@[simp] theorem augmented_snd {α : Type} (searchPath : SearchPath) (file : String)
    (body : SearchPath → α × SearchPath) : (searchPath.augmented file body).2 = searchPath := rfl

end SearchPath

end ScriptLoader
