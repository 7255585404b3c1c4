import ScriptLoader.Fault.Arguments
import ScriptLoader.SearchPath

/-!
Steps on a search path alone. Snapshots are kept in one list, whatever scope they were taken in,
and can be compared with or restored later.
-/

namespace ScriptLoader.Session

inductive SearchStep where
  | inject (file : String)
  | appendBaseline (directory : String)
  | prependBaseline (directory : String)
  | setBaseline (directories : List String)
  | replace (searchPath : SearchPath)
  | snapshot
  | restore (index : Int)
  | same (index : Int)
  | describe
  /-- Steps with the directory of a file in front, with the fault that ends them, if any. -/
  | augmented (file : String) (body : List SearchStep) (raised : Option Fault)

inductive SearchAnswer where
  | nothing
  | truth (truth : Bool)
  | text (text : String)
  | snapshot (searchPath : SearchPath)
  /-- The search path before a scope and at its start, the outcomes in it, each with the search
  path after it, and the fault that ended it. -/
  | scope (before entered : SearchPath) (body : List (Except Fault SearchAnswer × SearchPath))
    (raised : Option Fault)

structure Search where
  searchPath : SearchPath
  saved : List SearchPath

namespace Search

def badIndex : Fault := .foreign .badIndex "list index out of range"

/-- The snapshot with a number; negative numbers count from the newest. -/
def saved? (search : Search) (index : Int) : Except Fault SearchPath :=
  let position := if index < 0 then index + search.saved.length else index
  match position with
  | .ofNat n =>
    match search.saved[n]? with
    | some searchPath => .ok searchPath
    | none => .error badIndex
  | .negSucc _ => .error badIndex

def update (search : Search) (change : SearchPath → SearchPath) :
    Except Fault SearchAnswer × Search :=
  (.ok .nothing, { search with searchPath := change search.searchPath })

mutual

def perform : SearchStep → Search → Except Fault SearchAnswer × Search
  | .inject file, search => search.update (·.inject file)
  | .appendBaseline directory, search => search.update (·.appendBaseline directory)
  | .prependBaseline directory, search => search.update (·.prependBaseline directory)
  | .setBaseline directories, search => search.update (·.setBaseline directories)
  | .replace searchPath, search => search.update fun _ => searchPath
  | .snapshot, search =>
    (.ok (.snapshot search.searchPath),
      { search with saved := search.saved ++ [search.searchPath] })
  | .restore index, search =>
    match search.saved? index with
    | .ok searchPath => search.update fun _ => searchPath
    | .error fault => (.error fault, search)
  | .same index, search =>
    (((search.saved? index).map fun searchPath => .truth (searchPath == search.searchPath)), search)
  | .describe, search => (.ok (.text search.searchPath.describe), search)
  | .augmented file body raised, search =>
    let entered := search.searchPath.inject file
    let ((outcomes, saved), searchPath) :=
      search.searchPath.augmented file fun inner =>
        let (outcomes, last) := performAll body ⟨inner, search.saved⟩
        ((outcomes, last.saved), last.searchPath)
    (.ok (.scope search.searchPath entered outcomes raised), ⟨searchPath, saved⟩)

def performAll : List SearchStep → Search →
    List (Except Fault SearchAnswer × SearchPath) × Search
  | [], search => ([], search)
  | step :: rest, search =>
    let (outcome, next) := perform step search
    let (outcomes, last) := performAll rest next
    ((outcome, next.searchPath) :: outcomes, last)

end

end Search

end ScriptLoader.Session
