import ScriptLoader.Path.Basic
import ScriptLoader.Session.Step

/-!
Rehearsed modules. In place of being run, the module at a path follows a plan, a list of actions,
and what it sees and what comes of each action is recorded.
-/

namespace ScriptLoader.Session

inductive Deed where
  | step (step : Step)
  | raise (fault : Fault)
  | return (value : Script.Value)

/-- A deed; the fault of a guarded one is recorded and does not end the module. -/
structure Action where
  deed : Deed
  guarded : Bool

/-- One begun module: what it saw at its start, and what its deeds gave. -/
structure Visit where
  path : String
  caller : String
  chain : List String
  directories : List String
  trace : List (Except Fault Answer)

structure Rehearsal where
  visits : List Visit

namespace Rehearsal

def empty : Rehearsal := ⟨[]⟩

def record (rehearsal : Rehearsal) (number : Nat) (outcome : Except Fault Answer) : Rehearsal :=
  ⟨rehearsal.visits.modify number fun visit => { visit with trace := visit.trace ++ [outcome] }⟩

def defaultValue (path : String) : Script.Value :=
  .text ("ran " ++ Path.baseName path)

/-- Records an outcome, and goes on unless the outcome is a fault that ends the module. Interrupts
are never held back. -/
def follow (number : Nat) (guarded : Bool) (outcome : Except Fault Answer)
    (next : Program Rehearsal Script.Value) : Program Rehearsal Script.Value :=
  match outcome with
  | .ok _ => (Program.modifyHost (·.record number outcome)).bind fun _ => next
  | .error fault =>
    if guarded && !fault.isInterrupt then
      (Program.modifyHost (·.record number outcome)).bind fun _ => next
    else .fail fault

def runPlan (path : String) (number : Nat) : List Action → Program Rehearsal Script.Value
  | [] => .done (.ok (defaultValue path))
  | action :: rest =>
    match action.deed with
    | .return value => .done (.ok value)
    | .raise fault => follow number action.guarded (.error fault) (runPlan path number rest)
    | .step step =>
      step.program.attempt.bind fun outcome =>
        follow number action.guarded outcome (runPlan path number rest)

/-- Every module follows the plan for its path; without one it only begins and ends. -/
def executor (plans : List (String × List Action)) : Executor Rehearsal := fun path =>
  (Program.query .stack).bind fun stack =>
    (Program.query .searchPath).bind fun searchPath =>
      (Program.query .host).bind fun rehearsal =>
        let visit := ⟨path, stack.top, stack.chain, searchPath.directories, []⟩
        (Program.query (.setHost ⟨rehearsal.visits ++ [visit]⟩)).bind fun _ =>
          runPlan path rehearsal.visits.length ((plans.lookup path).getD [])

/-- How deeply rehearsed modules may nest; a plan that forgets what it loads has no bound of its
own. -/
def depthBound : Nat := 1000

end Rehearsal

def rehearse (plans : List (String × List Action)) (steps : List Step)
    (loader : Loader Rehearsal) : List (Except Fault Answer × Loader Rehearsal) :=
  runAll (Rehearsal.executor plans) (fun _ => Rehearsal.depthBound)
    (steps.map fun step => (Program.modifyHost fun _ => .empty).bind fun _ => step.program) loader

end ScriptLoader.Session
