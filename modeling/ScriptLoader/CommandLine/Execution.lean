import ScriptLoader.CommandLine.Arguments
import ScriptLoader.Script.Evaluation
import ScriptLoader.Settings

/-!
Carrying out a command line: a script is run as often as asked, or a name is resolved. Failures of
loads are reported on the error output, with exit status 1; a command line that is misused has
status 2. Diagnostics are the log lines of what happened.
-/

namespace ScriptLoader.CommandLine

open Script (Host)

/-- What a finished program leaves; a timed one still has to say how long it took. -/
structure Result where
  status : Nat
  output : String
  errors : String
  timed : Bool
  deriving DecidableEq

namespace Colour

def red : String := "\x1b[91m"
def green : String := "\x1b[92m"
def yellow : String := "\x1b[93m"
def cyan : String := "\x1b[96m"
def reset : String := "\x1b[0m"

end Colour

def coloured (colour text : String) : String := colour ++ text ++ Colour.reset

def headLine (script : String) : String := "--- Running " ++ script ++ " ---"

def skippedLine : String := coloured Colour.yellow "--- Skipped: content unchanged ---"

def resultLine (text : CodePoints) : CodePoints :=
  .ofString ("\n" ++ Colour.green ++ "--- Result: ") ++ text ++ .ofString (" ---" ++ Colour.reset)

def writeSeconds (nanoseconds : Nat) : String :=
  let units := (nanoseconds + 50000) / 100000
  toString (units / 10000) ++ "." ++
    String.ofList ((Nat.toDigits 10 (10000 + units % 10000)).drop 1)

def timeLine (nanoseconds : Nat) : String :=
  "\n" ++ coloured Colour.cyan
    ("--- Total Execution Time: " ++ writeSeconds nanoseconds ++ " seconds ---")

def Result.outputAfter (result : Result) (nanoseconds : Nat) : String :=
  if result.timed then result.output ++ timeLine nanoseconds ++ "\n" else result.output

def errorLine? (fault : Fault) : Option String :=
  if fault.isModuleLoad then
    some ("\n" ++ coloured Colour.red ("--- LOAD ERROR ---\n" ++ fault.message))
  else if fault.report?.isSome then some (coloured Colour.red ("ERROR: " ++ fault.message))
  else none

def say (line : String) : Program Host Unit := .modifyHost (·.print line)

def runOnce (script : String) : Program Host Unit :=
  (Program.call true script).bind fun value =>
    if value.isSkipped then say skippedLine
    else
      (Program.done value.shown).bind fun text =>
        (Program.done (Script.outputLine (resultLine text))).bind say

def runTimes (script : String) : Nat → Program Host Unit
  | 0 => .done (.ok ())
  | times + 1 => (runOnce script).bind fun _ => runTimes script times

def runProgram (script : String) (times : Nat) : Program Host Unit :=
  (say (headLine script)).bind fun _ => runTimes script times

def resolveProgram (name : String) : Program Host Unit :=
  (Program.query (.resolve name)).bind fun answer => (Program.done answer).bind say

namespace Invocation

def program (invocation : Invocation) : Program Host Unit :=
  match invocation.command with
  | .run => runProgram invocation.argument invocation.times
  | .resolve => resolveProgram invocation.argument

/-- The directories of the command line are searched before those of the environment, if these can
be reached at all. -/
def settings (invocation : Invocation) (environment : Option String) : Settings :=
  let directories :=
    match Settings.environmentDirectories environment with
    | [] => Settings.default.searchPath
    | listed => listed
  { Settings.default with
    searchPath :=
      if invocation.obstructed then invocation.directories
      else invocation.directories ++ directories }

def loader (invocation : Invocation) (environment : Option String) (machine : Machine) :
    Loader Host :=
  { (invocation.settings environment).loader machine Host.empty with
    obstructed := invocation.obstructed }

def logLines (journal : List Event) : String :=
  String.join (journal.reverse.filterMap fun event => event.logLine?.map (· ++ "\n"))

/-- Carries out what is asked for. A fault that is not reported leaves the program as it is; a
run that nests too deeply gives nothing. -/
def execute (invocation : Invocation) (environment : Option String) (machine : Machine) :
    Option (Except Fault Result) :=
  let loader := invocation.loader environment machine
  match loader.run Script.executor (Script.depthBound machine) invocation.program with
  | none => none
  | some (outcome, after) =>
    let output := after.host.output
    let timed := invocation.command == .run
    let log := if invocation.verbose then logLines after.journal else ""
    match outcome with
    | .ok () => some (.ok ⟨0, output, log, timed⟩)
    | .error fault =>
      match errorLine? fault with
      | some line => some (.ok ⟨1, output, log ++ line ++ "\n", timed⟩)
      | none => some (.error fault)

end Invocation

def usage : Option Command → String
  | none => "usage: illoader [-h] [-v] \x7brun,resolve\x7d ..."
  | some .run => "usage: illoader run [-h] [-I INCLUDE] [--repeat REPEAT] script"
  | some .resolve => "usage: illoader resolve [-h] [-I INCLUDE] name"

/-- What comes of asking whether a script is to be run at all if it is open how often. -/
def uncountedFault : Fault :=
  .foreign .badType "'<' not supported between instances of 'list' and 'int'"

def respond (arguments : List String) (environment : Option String) (machine : Machine) :
    Option (Except Fault Result) :=
  match Invocation.ofArguments arguments with
  | .ok invocation => invocation.execute environment machine
  | .error (.help command) => some (.ok ⟨0, usage command ++ "\n", "", false⟩)
  | .error (.misuse command problem) =>
    some (.ok ⟨2, "", Refusal.line command problem ++ "\n", false⟩)
  | .error .uncounted => some (.error uncountedFault)

end ScriptLoader.CommandLine
