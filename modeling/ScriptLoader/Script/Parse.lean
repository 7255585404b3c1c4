import ScriptLoader.Script.Literal
import ScriptLoader.Fault.Basic

/-!
Scripts from texts. A text is first read as statements; only then are the literals decoded, in
reading order, so that a literal is at fault only in a text that is otherwise a script.
-/

namespace ScriptLoader.Script

namespace SyntaxError

def labels (terminals : List Terminal) : List String :=
  (terminals.map Terminal.label).mergeSort fun a b => !decide (b < a)

def message : SyntaxError → String
  | unexpected found expected _ =>
    let name :=
      match found with
      | some text => "'" ++ String.ofList text ++ "'"
      | none => Terminal.endOfFile.label
    "Unexpected " ++ name ++ ". Expected one of: " ++ ", ".intercalate (labels expected) ++ "."
  | invalidCharacter character _ => "Invalid character '" ++ character.toString ++ "' found."
  | invalidString literal _ => "Invalid string literal " ++ String.ofList literal ++ "."

def line : SyntaxError → Nat
  | unexpected _ _ line => line
  | invalidCharacter _ line => line
  | invalidString _ line => line

end SyntaxError

/-- Why a text gives no script: it is malformed, or one of its integers is too long. -/
inductive Unreadable where
  | malformed (error : SyntaxError)
  | tooManyDigits (error : Literal.TooManyDigits)
  deriving DecidableEq

namespace Literal

/-- The text of a string token. An invalid one is reported on the line of the token itself. -/
def string (token : Token) : Except Unreadable CodePoints :=
  match decodeString? token.text with
  | some text => .ok text
  | none => .error (.malformed (.invalidString token.text token.line))

def number (token : Token) : Except Unreadable Numeral :=
  match decodeNumber token.text with
  | .ok value => .ok value
  | .error e => .error (.tooManyDigits e)

end Literal

namespace Call

def decode (request : Call Token) : Except Unreadable (Call CodePoints) :=
  (Literal.string request.path).map fun path => ⟨path, request.safe, request.line⟩

end Call

namespace Expr

def decode : RawExpr → Except Unreadable (Expr Numeral CodePoints)
  | .number value line => (Literal.number value).map fun value => .number value line
  | .text value line => (Literal.string value).map fun value => .text value line
  | .boolean value line => .ok (.boolean value line)
  | .nil line => .ok (.nil line)
  | .name identifier line => .ok (.name identifier line)
  | .call request => request.decode.map .call
  | .add left right =>
    match decode left with
    | .error e => .error e
    | .ok left =>
      match decode right with
      | .error e => .error e
      | .ok right => .ok (.add left right)

end Expr

namespace Statement

def decode : RawStatement → Except Unreadable (Statement Numeral CodePoints)
  | .assign target value line => value.decode.map fun value => .assign target value line
  | .print value line => value.decode.map fun value => .print value line
  | .return value line => value.decode.map fun value => .return value line
  | .fail value line => value.decode.map fun value => .fail value line
  | .call request => request.decode.map .call

def decodeAll : List RawStatement → Except Unreadable (List (Statement Numeral CodePoints))
  | [] => .ok []
  | statement :: rest =>
    match statement.decode with
    | .error e => .error e
    | .ok statement => (decodeAll rest).map (statement :: ·)

end Statement

def readStatements (text : List Char) : Except Unreadable (List (Statement Numeral CodePoints)) :=
  match Reader.read (Scan.ofText text) with
  | .error e => .error (.malformed e)
  | .ok raw => Statement.decodeAll raw

namespace Unreadable

def fault (file : Option String) : Unreadable → Fault
  | malformed error =>
    .script ⟨file, some error.line⟩ (.syntaxError error.message)
  | tooManyDigits error => .foreign .unconvertible error.message

end Unreadable

def parse (file : Option String) (text : List Char) : Except Fault Script :=
  match readStatements text with
  | .error e => .error (e.fault file)
  | .ok statements => .ok ⟨file, statements⟩

end ScriptLoader.Script
