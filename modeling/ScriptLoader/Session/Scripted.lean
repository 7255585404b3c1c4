import ScriptLoader.Script.Evaluation
import ScriptLoader.Session.Step

/-!
Sessions with scripts. Besides the common steps, a text can be run as a script without being a
module, and its statements can be carried out or evaluated one by one.
-/

namespace ScriptLoader.Session

open Script (Host)

inductive ScriptStep where
  | common (step : Step)
  | run (source : String) (file : Option String)
  | performEach (source : String) (file : Option String)
  | evaluateEach (source : String) (file : Option String)

def tryEach {σ α : Type} : List (Program σ α) → Program σ (List (Except Fault α))
  | [] => .done (.ok [])
  | program :: rest =>
    program.attempt.bind fun outcome =>
      (tryEach rest).bind fun outcomes => .done (.ok (outcome :: outcomes))

namespace ScriptStep

def program : ScriptStep → Program Host Answer
  | common step => step.program
  | run source file =>
    (Program.done (Script.parse file source.toList)).bind fun script =>
      (Script.run script).bind fun value => .done (.ok (.value value))
  | performEach source file =>
    (Program.done (Script.parse file source.toList)).bind fun script =>
      (tryEach (script.statements.map fun statement => statement.perform file)).bind
        fun outcomes => .done (.ok (.outcomes (outcomes.map (·.map fun _ => none))))
  | evaluateEach source file =>
    (Program.done (Script.parse file source.toList)).bind fun script =>
      (tryEach (script.statements.map fun statement => statement.evaluate)).bind
        fun outcomes => .done (.ok (.outcomes (outcomes.map (·.map some))))

end ScriptStep

def runScripted (steps : List ScriptStep) (loader : Loader Host) :
    List (Except Fault Answer × Loader Host) :=
  runAll Script.executor (fun loader => Script.depthBound loader.machine)
    (steps.map fun step => (Program.modifyHost (·.clearOutput)).bind fun _ => step.program) loader

end ScriptLoader.Session
