import ScriptLoader.Loader.Program

/-!
Loading. A load resolves a name, checks the file against the cache, and runs the module only if
its content is new. While the module runs it is the newest entry of the stack and its directory
is searched first; both are undone when it ends, however it ends.

Modules load modules. The depth of that nesting is bounded here by a number, and a run that would
need more gives nothing.
-/

namespace ScriptLoader

/-- What becomes of a request for a module before any module is run. -/
inductive Verdict where
  /-- The request has failed, or the module is up to date. -/
  | settled (outcome : Except Fault Script.Value)
  /-- The module at this path has to be run. -/
  | due (path : String)

abbrev Executor (σ : Type) := String → Program σ Script.Value

namespace Loader

variable {σ α : Type}

def answer (loader : Loader σ) : (request : Request σ) → request.Answer × Loader σ
  | .resolve requested => loader.resolve requested
  | .isLoaded requested => loader.isLoaded requested
  | .forget requested => loader.forget requested
  | .loadedModules => (loader.loadedModules, loader)
  | .signatureOf path => (loader.cache.signatureOf path, loader)
  | .reset => ((), loader.reset)
  | .searchPath => (loader.searchPath, loader)
  | .setBaseline directories =>
    ((), { loader with searchPath := loader.searchPath.setBaseline directories })
  | .appendBaseline directory =>
    ((), { loader with searchPath := loader.searchPath.appendBaseline directory })
  | .prependBaseline directory =>
    ((), { loader with searchPath := loader.searchPath.prependBaseline directory })
  | .inject file => ((), { loader with searchPath := loader.searchPath.inject file })
  | .restore searchPath => ((), { loader with searchPath })
  | .stack => (loader.stack, loader)
  | .push path => ((), { loader with stack := loader.stack.push path })
  | .read path => (loader.machine.read path, loader)
  | .edit change => ((), { loader with machine := loader.machine.edit change })
  | .host => (loader.host, loader)
  | .setHost host => ((), { loader with host })

/-- The outcome of a run and the loader after it, unless the run nests too deeply. -/
abbrev Run (σ α : Type) := Option (Except Fault α × Loader σ)

/-- Decides what becomes of a request for a module: its name is resolved, and its file is checked
against the cache. -/
def judge (loader : Loader σ) (requested : String) : Verdict × Loader σ :=
  match loader.resolve requested with
  | (.error fault, loader) => (.settled (.error fault), loader)
  | (.ok path, loader) =>
    if loader.machine.isFile path then
      match loader.check path with
      | .error fault => (.settled (.error fault), loader)
      | .ok (true, loader) => (.settled (.ok .skipped), loader.note (.skipped path))
      | .ok (false, loader) => (.due path, loader)
    else (.settled (.error (.notAFile path)), loader)

def loadWith (execute : String → Loader σ → Run σ Script.Value) (requested : String)
    (loader : Loader σ) : Run σ Script.Value :=
  match loader.judge requested with
  | (.settled outcome, loader) => some (outcome, loader)
  | (.due path, loader) =>
    match execute path (loader.enter path) with
    | none => none
    | some (outcome, inner) =>
      some (outcome.mapError (Fault.ofModule path loader.caller), inner.leave loader.searchPath)

def report (loader : Loader σ) (safe : Bool) (requested : String)
    (outcome : Except Fault Script.Value) : Except Fault Script.Value :=
  if safe then outcome.mapError (Fault.ofRequired requested loader.caller) else outcome

def callWith (execute : String → Loader σ → Run σ Script.Value) (safe : Bool) (requested : String)
    (loader : Loader σ) : Run σ Script.Value :=
  match loadWith execute requested loader with
  | none => none
  | some (outcome, after) => some (loader.report safe requested outcome, after)

def runWith (load : Bool → String → Loader σ → Run σ Script.Value) :
    Program σ α → Loader σ → Run σ α
  | .done outcome, loader => some (outcome, loader)
  | .load safe requested next, loader =>
    match load safe requested loader with
    | none => none
    | some (outcome, after) => runWith load (next outcome) after
  | .ask request next, loader =>
    runWith load (next (loader.answer request).1) (loader.answer request).2

/-- Runs the module at a path, with at most `depth` modules active at a time. -/
def execute (executor : Executor σ) : Nat → String → Loader σ → Run σ Script.Value
  | 0 => fun _ _ => none
  | depth + 1 => fun path => runWith (callWith (execute executor depth)) (executor path)

def run (executor : Executor σ) (depth : Nat) (program : Program σ α) (loader : Loader σ) :
    Run σ α :=
  runWith (callWith (execute executor depth)) program loader

def load (executor : Executor σ) (depth : Nat) (requested : String) (loader : Loader σ) :
    Run σ Script.Value :=
  loadWith (execute executor depth) requested loader

def require (executor : Executor σ) (depth : Nat) (requested : String) (loader : Loader σ) :
    Run σ Script.Value :=
  callWith (execute executor depth) true requested loader

@[simp] theorem runWith_done (load : Bool → String → Loader σ → Run σ Script.Value)
    (outcome : Except Fault α) (loader : Loader σ) :
    runWith load (.done outcome) loader = some (outcome, loader) := rfl

/-- A call that is not safe is a load. -/
theorem callWith_false (executor : Executor σ) (depth : Nat) (requested : String)
    (loader : Loader σ) :
    callWith (execute executor depth) false requested loader =
      loader.load executor depth requested := by
  unfold load callWith
  cases loadWith (execute executor depth) requested loader <;> rfl

end Loader

end ScriptLoader
