import ScriptLoader.Loader.Load
import ScriptLoader.Script.Parse
import ScriptLoader.Text.Newlines
import ScriptLoader.Text.Utf8

/-!
Running scripts. All scripts of one host share its names, so a module can define what the script
that loads it reads afterwards. What scripts print is collected in order.

Running a script is a program: it asks its loader for the modules that the script loads.
-/

namespace ScriptLoader.Script

structure Host where
  globals : List (String × Value)
  output : String

namespace Host

def empty : Host := ⟨[], ""⟩

def define (host : Host) (name : String) (value : Value) : Host :=
  { host with globals := (name, value) :: host.globals.filter fun entry => entry.1 != name }

def value? (host : Host) (name : String) : Option Value :=
  host.globals.lookup name

def print (host : Host) (line : String) : Host :=
  { host with output := host.output ++ line ++ "\n" }

def clearOutput (host : Host) : Host := { host with output := "" }

def sorted (host : Host) : List (String × Value) :=
  host.globals.mergeSort fun a b => !decide (b.1 < a.1)

@[simp] theorem value?_define (host : Host) (name : String) (value : Value) :
    (host.define name value).value? name = some value := by
  simp [define, value?]

@[simp] theorem value?_define_of_ne {name other : String} (h : other ≠ name) (host : Host)
    (value : Value) : (host.define name value).value? other = host.value? other := by
  simp only [define, value?, List.lookup_cons, beq_false_of_ne h]
  induction host.globals with
  | nil => rfl
  | cons entry rest ih =>
      obtain ⟨key, bound⟩ := entry
      by_cases hkey : key = name
      · subst hkey
        simpa [List.lookup_cons, beq_false_of_ne h] using ih
      · have hkeep : (key != name) = true := by simpa using hkey
        simp only [List.filter_cons, hkeep, if_true, List.lookup_cons, ih]

end Host

namespace TooLarge

def fault (error : TooLarge) : Fault :=
  match error with
  | toWrite => .foreign .badValue error.message
  | toConvert => .foreign .overflow error.message

end TooLarge

namespace Value

def add (site : Site) : Value → Value → Except Fault Value
  | number m, number n => ((m.add n).mapError TooLarge.fault).map number
  | text s, text t => .ok (text (s ++ t))
  | left, right => .error (.script site (.operandMismatch left.typeName right.typeName))

def shown (value : Value) : Except Fault CodePoints :=
  value.write.mapError TooLarge.fault

end Value

def unwritable (failure : Unwritable) : Fault :=
  .foreign .badValue failure.message

/-- A text as a line of the output, which takes UTF-8. Of a text that cannot be written so, nothing
is put out. -/
def outputLine (text : CodePoints) : Except Fault String :=
  text.write.mapError unwritable

/-- What can be asked for besides an expression, and cannot be evaluated. -/
def unknownNode (name : String) : Fault :=
  .foreign .badType ("Unknown script node: " ++ name)

namespace Expr

/-- The value of an expression in a script of a file. Operands are evaluated from left to right,
and a fault ends the evaluation. -/
def evaluate (file : Option String) : Expr Numeral CodePoints → Program Host Value
  | .number value _ => .done (.ok (.number value))
  | .text value _ => .done (.ok (.text value))
  | .boolean value _ => .done (.ok (.boolean value))
  | .nil _ => .done (.ok .nil)
  | .name identifier line =>
    (Program.query .host).bind fun host =>
      match host.value? identifier with
      | some value => .done (.ok value)
      | none => .fail (.script ⟨file, some line⟩ (.undefinedName identifier))
  | .call request => .call request.safe request.path.fileName
  | .add left right =>
    (evaluate file left).bind fun a =>
      (evaluate file right).bind fun b => .done (a.add ⟨file, some left.line⟩ b)

end Expr

namespace Statement

/-- Carries out a statement. A `return` has no effect by itself; it ends the script that it stands
in. -/
def perform (file : Option String) : Statement Numeral CodePoints → Program Host Unit
  | .assign target value _ =>
    (value.evaluate file).bind fun v => .modifyHost (·.define target v)
  | .print value _ =>
    (value.evaluate file).bind fun v =>
      (Program.done v.shown).bind fun text =>
        (Program.done (outputLine text)).bind fun line => .modifyHost (·.print line)
  | .return _ _ => .done (.ok ())
  | .fail value line =>
    (value.evaluate file).bind fun v =>
      (Program.done v.shown).bind fun message =>
        .fail (.script ⟨file, some line⟩ (.failed message.escaped))
  | .call request => (Program.call request.safe request.path.fileName).bind fun _ => .done (.ok ())

def evaluate : Statement Numeral CodePoints → Program Host Value
  | .assign .. => .fail (unknownNode "LetStatement")
  | .print .. => .fail (unknownNode "PrintStatement")
  | .return .. => .fail (unknownNode "ReturnStatement")
  | .fail .. => .fail (unknownNode "FailStatement")
  | .call request => .call request.safe request.path.fileName

end Statement

def runStatements (file : Option String) : List (Statement Numeral CodePoints) → Program Host Value
  | [] => .done (.ok .nil)
  | .return value _ :: _ => value.evaluate file
  | statement :: rest => (statement.perform file).bind fun _ => runStatements file rest

def run (script : Script) : Program Host Value :=
  runStatements script.file script.statements

/-- The script that a file holds: its bytes as UTF-8, with every line ending taken as one. -/
def ofBytes (path : String) (bytes : ByteArray) : Except Fault Script :=
  match Text.Utf8.decode bytes.data.toList with
  | .error failure => .error (.foreign .undecodable failure.message)
  | .ok text => parse (some path) (Text.unifyNewlines text)

def executor : Executor Host := fun path =>
  (Program.query (.read path)).bind fun
    | .error error => .fail (.unreadable path error)
    | .ok bytes => (Program.done (ofBytes path bytes)).bind run

/-- How many modules can be active at a time while the files stay as they are: a file is begun
again only after it changed, and it has at most two canonical paths, one with a double slash in
front. -/
def depthBound (machine : Machine) : Nat :=
  2 * machine.files.count + 2

end ScriptLoader.Script
