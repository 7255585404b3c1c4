/-!
Reports. A report is a code with named details; the code's template says how they read. Details
are put into the template as they are and never read as templates themselves.
-/

namespace ScriptLoader

inductive Code where
  | fileNotFound
  | notAFile
  | executionFailed
  | moduleLoadFailed
  | scriptSyntaxError
  | scriptUndefinedName
  | scriptOperandMismatch
  | scriptFail
  deriving DecidableEq

inductive Segment where
  | text (text : String)
  | detail (name : String)
  deriving DecidableEq

namespace Code

def template : Code → List Segment
  | fileNotFound =>
    [.text "Module '", .detail "requested", .text "' not found (requested by ",
      .detail "caller", .text ")."]
  | notAFile => [.text "Resolved path '", .detail "path", .text "' is not a regular file."]
  | executionFailed =>
    [.text "Error while loading '", .detail "path", .text "' (requested by ",
      .detail "caller", .text "): ", .detail "fault"]
  | moduleLoadFailed =>
    [.text "Could not load module '", .detail "requested", .text "' (requested by ",
      .detail "caller", .text "): ", .detail "cause"]
  | scriptSyntaxError => [.text "Syntax Error: ", .detail "details"]
  | scriptUndefinedName => [.text "Name '", .detail "name", .text "' is not defined."]
  | scriptOperandMismatch =>
    [.text "The '+' operator cannot combine a '", .detail "left_type", .text "' and a '",
      .detail "right_type", .text "'."]
  | scriptFail => [.detail "message"]

end Code

def describeCaller : Option String → String
  | none => "top level"
  | some caller => if caller = "" then "top level" else "'" ++ caller ++ "'"

/-- A code with its details. A detail may be absent on purpose, such as a requester that nobody
named. -/
structure Report where
  code : Code
  details : List (String × Option String)
  deriving DecidableEq

namespace Report

def fill (details : List (String × Option String)) : Segment → String
  | .text text => text
  | .detail name =>
    if name = "caller" then describeCaller ((details.lookup name).getD none)
    else ((details.lookup name).getD none).getD "None"

def message (report : Report) : String :=
  String.join (report.code.template.map (fill report.details))

/-- The first detail that the template asks for and the report does not have. -/
def missing? (report : Report) : Option String :=
  report.code.template.findSome? fun
    | .text _ => none
    | .detail name => if (report.details.lookup name).isNone then some name else none

def notFound (requested : String) (caller : Option String) : Report :=
  ⟨.fileNotFound, [("requested", some requested), ("caller", caller)]⟩

def notAFile (path : String) : Report :=
  ⟨.notAFile, [("path", some path)]⟩

def executionFailed (path : String) (caller : Option String) (fault : String) : Report :=
  ⟨.executionFailed, [("path", some path), ("caller", caller), ("fault", some fault)]⟩

def moduleLoadFailed (requested : String) (caller : Option String) (cause : String) : Report :=
  ⟨.moduleLoadFailed, [("requested", some requested), ("caller", caller), ("cause", some cause)]⟩

def syntaxError (details : String) : Report :=
  ⟨.scriptSyntaxError, [("details", some details)]⟩

def undefinedName (name : String) : Report :=
  ⟨.scriptUndefinedName, [("name", some name)]⟩

def operandMismatch (left right : String) : Report :=
  ⟨.scriptOperandMismatch, [("left_type", some left), ("right_type", some right)]⟩

def failed (message : String) : Report :=
  ⟨.scriptFail, [("message", some message)]⟩

theorem message_notFound (requested : String) (caller : Option String) :
    (notFound requested caller).message =
      "Module '" ++ requested ++ "' not found (requested by " ++ describeCaller caller ++ ")." := by
  simp [message, notFound, Code.template, fill, List.lookup_cons, String.append_assoc]

theorem message_notAFile (path : String) :
    (notAFile path).message = "Resolved path '" ++ path ++ "' is not a regular file." := by
  simp [message, notAFile, Code.template, fill, String.append_assoc]

theorem message_executionFailed (path : String) (caller : Option String) (fault : String) :
    (executionFailed path caller fault).message =
      "Error while loading '" ++ path ++ "' (requested by " ++ describeCaller caller ++ "): " ++
        fault := by
  simp [message, executionFailed, Code.template, fill, List.lookup_cons, String.append_assoc]

theorem message_moduleLoadFailed (requested : String) (caller : Option String) (cause : String) :
    (moduleLoadFailed requested caller cause).message =
      "Could not load module '" ++ requested ++ "' (requested by " ++ describeCaller caller ++
        "): " ++ cause := by
  simp [message, moduleLoadFailed, Code.template, fill, List.lookup_cons, String.append_assoc]

end Report

end ScriptLoader
