import ScriptLoader.Fault.Report
import ScriptLoader.Files

/-!
Faults: everything that can end a load early. The loader's own faults say which phase failed, for
which module and who asked for it; `moduleLoad` wraps any of them at the boundary where a module
was required. A script's faults carry the place in the script. All others come from outside.
-/

namespace ScriptLoader

inductive Foreign where
  | badValue
  | missingKey
  | badType
  | badIndex
  | overflow
  | divisionByZero
  | runtime
  | unspecified
  | undecodable
  | unconvertible
  | access (error : AccessError)
  | interrupt
  deriving DecidableEq

structure Site where
  file : Option String
  line : Option Int
  deriving DecidableEq

namespace Site

/-- A site is named only if the file is; line 0 stands for an unknown line. -/
def label (site : Site) : String :=
  match site.file with
  | none => ""
  | some file =>
    if file = "" then ""
    else
      match site.line with
      | none => "Error in '" ++ file ++ "': "
      | some line =>
        if line = 0 then "Error in '" ++ file ++ "': "
        else "Error in '" ++ file ++ "' (Line: " ++ toString line ++ "): "

end Site

inductive Fault where
  | notFound (requested : String) (caller : Option String)
  | notAFile (path : String)
  | execution (path : String) (fault : Fault) (caller : Option String)
  | moduleLoad (requested : String) (cause : Fault) (caller : Option String)
  | loader (report : Report)
  | script (site : Site) (report : Report)
  | plain (report : Report)
  | internal (text : String)
  | foreign (kind : Foreign) (text : String)
  deriving DecidableEq

namespace Fault

def message : Fault → String
  | notFound requested caller => (Report.notFound requested caller).message
  | notAFile path => (Report.notAFile path).message
  | execution path fault caller => (Report.executionFailed path caller fault.message).message
  | moduleLoad requested cause caller =>
    (Report.moduleLoadFailed requested caller cause.message).message
  | loader report => report.message
  | script site report => site.label ++ report.message
  | plain report => report.message
  | internal text => text
  | foreign _ text => text

def report? : Fault → Option Report
  | notFound requested caller => some (.notFound requested caller)
  | notAFile path => some (.notAFile path)
  | execution path fault caller => some (.executionFailed path caller fault.message)
  | moduleLoad requested cause caller => some (.moduleLoadFailed requested caller cause.message)
  | loader report => some report
  | script _ report => some report
  | plain report => some report
  | internal _ => none
  | foreign _ _ => none

def isLoaderFault : Fault → Bool
  | notFound .. | notAFile _ | execution .. | moduleLoad .. | loader _ => true
  | _ => false

def isModuleLoad : Fault → Bool
  | moduleLoad .. => true
  | _ => false

/-- An interrupt ends everything; no load catches or wraps it. -/
def isInterrupt : Fault → Bool
  | foreign .interrupt _ => true
  | _ => false

def rootCause : Fault → Fault
  | moduleLoad _ cause _ => cause.rootCause
  | fault => fault

/-- What the load of a module reports when the module ends with a fault. A fault of the loader
describes itself already, and an interrupt is nobody's. -/
def ofModule (path caller : String) (fault : Fault) : Fault :=
  if fault.isLoaderFault || fault.isInterrupt then fault else execution path fault (some caller)

def ofRequired (requested caller : String) (fault : Fault) : Fault :=
  if fault.isLoaderFault then moduleLoad requested fault (some caller) else fault

def unreadable (path : String) (error : AccessError) : Fault :=
  match error with
  | .nulCharacter => foreign .badValue (error.message path)
  | _ => foreign (.access error) (error.message path)

@[simp] theorem rootCause_not_isModuleLoad (fault : Fault) :
    fault.rootCause.isModuleLoad = false := by
  induction fault with
  | moduleLoad requested cause caller ih => simpa [rootCause] using ih
  | _ => rfl

@[simp] theorem rootCause_of_not_isModuleLoad {fault : Fault} (h : fault.isModuleLoad = false) :
    fault.rootCause = fault := by
  cases fault <;> simp_all [rootCause, isModuleLoad]

end Fault

end ScriptLoader
