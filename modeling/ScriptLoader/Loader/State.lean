import ScriptLoader.Cache
import ScriptLoader.LoadStack
import ScriptLoader.Resolve
import ScriptLoader.SearchPath

/-!
The state of loading: the machine, the cache, the load stack, the search path, the state of the
host that runs modules, and a journal of what happened. The queries and updates here concern one
loader as it is; modules are run in `Load`.
-/

namespace ScriptLoader

inductive Event where
  /-- A name was found in a directory of the search path. -/
  | resolved (requested path directory : String)
  /-- A file could not be read for its signature. -/
  | unreadable (path : String) (error : AccessError)
  /-- A file was checked against the cache: what it held, if it could be read, and its signature. -/
  | checked (path : String) (content : Option ByteArray) (signature : Option Signature)
  /-- A file was up to date. -/
  | skipped (path : String)
  /-- A module was begun, as the load at this depth. -/
  | started (path : String) (depth : Nat)
  | forgotten (path : String)
  | reset
  deriving DecidableEq

namespace Event

def logLine? : Event → Option String
  | resolved requested path directory =>
    some ("DEBUG illoader.core.path_resolver: Resolved '" ++ requested ++ "' to '" ++ path ++
      "' via '" ++ directory ++ "'")
  | unreadable path error =>
    some ("DEBUG illoader.core.module_cache: Could not compute signature of '" ++ path ++ "': " ++
      error.message path)
  | skipped path =>
    some ("DEBUG illoader.core.loader: Skipping '" ++ path ++ "': content unchanged")
  | started path depth =>
    some ("DEBUG illoader.core.loader: Loading '" ++ path ++ "' (depth " ++ toString depth ++ ")")
  | checked .. => none
  | forgotten _ => none
  | reset => none

end Event

structure Loader (σ : Type) where
  machine : Machine
  cache : Cache
  stack : LoadStack
  searchPath : SearchPath
  /-- Whether something that is no path stands behind the directories of the search path. A search
  that comes so far has not failed to find a module, it cannot be carried on. -/
  obstructed : Bool
  host : σ
  /-- What happened, newest first. -/
  journal : List Event

namespace Loader

variable {σ : Type}

def start (machine : Machine) (algorithm : Digest.Algorithm) (baseline : List String) (host : σ) :
    Loader σ :=
  { machine
    cache := .empty algorithm
    stack := .empty
    searchPath := .ofBaseline baseline
    obstructed := false
    host
    journal := [] }

def note (loader : Loader σ) (event : Event) : Loader σ :=
  { loader with journal := event :: loader.journal }

def caller (loader : Loader σ) : String := loader.stack.top

/-- What a search for a name ends with that found it in no directory. Anchored names are not
searched for. -/
def searchFault (loader : Loader σ) (requested : String) (fault : Fault) : Fault :=
  if loader.obstructed && !Path.isAnchored requested then
    .foreign .badType "expected str, bytes or os.PathLike object, not list"
  else fault

def target (loader : Loader σ) (requested : String) : Except Fault String :=
  (Resolve.resolve loader.machine loader.searchPath.directories requested loader.caller).mapError
    (loader.searchFault requested)

def noteResolved (loader : Loader σ) (requested : String) : Loader σ :=
  if Path.isAnchored requested then loader
  else
    match Resolve.directory? loader.machine loader.searchPath.directories requested with
    | none => loader
    | some directory =>
      match Resolve.canonical loader.machine (Resolve.candidate directory requested) with
      | .error _ => loader
      | .ok path => loader.note (.resolved requested path directory)

def resolve (loader : Loader σ) (requested : String) : Except Fault String × Loader σ :=
  (loader.target requested, loader.noteResolved requested)

def noteUnreadable (loader : Loader σ) (path : String) : Loader σ :=
  match loader.machine.read path with
  | .ok _ => loader
  | .error .nulCharacter => loader
  | .error error => loader.note (.unreadable path error)

/-- Whether a file is up to date; its signature is recorded in any case. -/
def check (loader : Loader σ) (path : String) : Except Fault (Bool × Loader σ) :=
  match loader.cache.check loader.machine path with
  | .error fault => .error fault
  | .ok (unchanged, cache) =>
    .ok (unchanged,
      ({ loader with cache }.noteUnreadable path).note
        (.checked path (loader.machine.read path).toOption (cache.signatureOf path)))

/-- Whether a name means a module that is recorded with the content that it has now. The record
stays as it is. A name that means no module is not loaded. -/
def isLoaded (loader : Loader σ) (requested : String) : Except Fault Bool × Loader σ :=
  match loader.resolve requested with
  | (.error fault, loader) =>
    (if fault.isLoaderFault then .ok false else .error fault, loader)
  | (.ok path, loader) =>
    match loader.cache.signatureOf path with
    | none => (.ok false, loader)
    | some stored =>
      match loader.machine.signature loader.cache.algorithm path with
      | .error fault => (.error fault, loader)
      | .ok signature => (.ok (some stored == signature), loader.noteUnreadable path)

def forget (loader : Loader σ) (requested : String) : Except Fault Bool × Loader σ :=
  match loader.resolve requested with
  | (.error fault, loader) => (.error fault, loader)
  | (.ok path, loader) =>
    (.ok (loader.cache.forget path).1,
      { loader with cache := (loader.cache.forget path).2 }.note (.forgotten path))

def loadedModules (loader : Loader σ) : List String := loader.cache.paths

/-- Forgets every module and every active load. The search path stays. -/
def reset (loader : Loader σ) : Loader σ :=
  { loader with cache := loader.cache.reset, stack := .empty }.note .reset

def enter (loader : Loader σ) (path : String) : Loader σ :=
  { loader with
    stack := loader.stack.push path
    searchPath := loader.searchPath.inject path }.note (.started path (loader.stack.depth + 1))

def leave (loader : Loader σ) (before : SearchPath) : Loader σ :=
  { loader with stack := loader.stack.pop, searchPath := before }

end Loader

end ScriptLoader
