import ScriptLoader.Fault.Basic
import ScriptLoader.Text.Quoted

/-!
Faults made from a description: a kind with positional arguments, or a report with details. A
report that lacks a detail of its template cannot be made and is a missing key instead.
-/

namespace ScriptLoader.Fault

inductive Argument where
  | nothing
  | truth (b : Bool)
  | text (s : String)
  | number (n : Int)
  deriving DecidableEq

namespace Argument

def plain : Argument → String
  | nothing => "None"
  | truth b => if b then "True" else "False"
  | text s => s
  | number n => toString n

def quoted : Argument → String
  | text s => Text.quoted s
  | argument => argument.plain

end Argument

/-- No argument leaves the message empty, one is the message, and more are listed between
parentheses. A missing key is always quoted. A refused access with two or three arguments is
described by its number, its reason and its file. -/
def argumentText (kind : Foreign) (arguments : List Argument) : String :=
  match kind, arguments with
  | _, [] => ""
  | .missingKey, [argument] => argument.quoted
  | _, [argument] => argument.plain
  | .access _, [number, reason] => "[Errno " ++ number.plain ++ "] " ++ reason.plain
  | .access _, [number, reason, file] =>
    "[Errno " ++ number.plain ++ "] " ++ reason.plain ++ ": " ++ file.quoted
  | _, _ => "(" ++ ", ".intercalate (arguments.map Argument.quoted) ++ ")"

def ofArguments (kind : Foreign) (arguments : List Argument) : Fault :=
  foreign kind (argumentText kind arguments)

def missingKey (key : String) : Fault :=
  ofArguments .missingKey [.text key]

/-- A fault with a report, or the missing key if the report cannot be read. -/
def ofReport (make : Report → Fault) (report : Report) : Except Fault Fault :=
  match report.missing? with
  | some name => .error (missingKey name)
  | none => .ok (make report)

end ScriptLoader.Fault
