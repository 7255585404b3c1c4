import ScriptLoader.Script.Token
import ScriptLoader.Script.Expr

/-!
Reading statements from tokens. A reader holds the statements that are complete and the one that
is open; each token takes it to the next state, or is refused with the terminals that would have
been accepted. Every state can be completed, so a token is refused exactly where no continuation
exists.
-/

namespace ScriptLoader.Script

/-- An expression whose literals are still tokens. The path of a call is a token with a line of its
own, which need not be the line of the call. -/
abbrev RawExpr := Expr Token Token

abbrev RawStatement := Statement Token Token

inductive Head where
  | assign (target : String) (line : Nat)
  | print (line : Nat)
  | return (line : Nat)
  | fail (line : Nat)
  deriving DecidableEq

namespace Head

def complete (sum : RawExpr) : Head → RawStatement
  | .assign target line => .assign target sum line
  | .print line => .print sum line
  | .return line => .return sum line
  | .fail line => .fail sum line

end Head

/-- A sum that waits for its right operand, or nothing if the first operand is due. -/
abbrev Pending := Option RawExpr

namespace Pending

def complete (right : RawExpr) : Pending → RawExpr
  | none => right
  | some left => .add left right

end Pending

/-- An expression that is being read: the statement it belongs to, and what waits outside of each
open parenthesis, the innermost one first. -/
structure Context where
  head : Head
  outside : List Pending
  deriving DecidableEq

namespace Reader

inductive State where
  | start
  | target (line : Nat)
  | equals (name : String) (line : Nat)
  | operand (context : Context) (pending : Pending)
  /-- After `load` or `require`, in an expression or as a statement. -/
  | path (inside : Option (Context × Pending)) (safe : Bool) (line : Nat)
  | value (context : Context) (sum : RawExpr)
  | called (request : Call Token)
  deriving DecidableEq

namespace State

def mode : State → Mode
  | .start => .start
  | .target _ => .target
  | .equals .. => .equals
  | .operand .. => .operand
  | .path .. => .path
  | .value .. => .valueEnd
  | .called _ => .valueEnd

def accepted : State → List Terminal
  | .start => Terminal.statementStarts ++ [.endOfFile]
  | .target _ => [.name]
  | .equals .. => [.equals]
  | .operand .. => Terminal.operandStarts
  | .path .. => [.string]
  | .value ⟨_, []⟩ _ => Terminal.statementStarts ++ [.plus, .endOfFile]
  | .value ⟨_, _ :: _⟩ _ => [.plus, .closing]
  | .called _ => Terminal.statementStarts ++ [.endOfFile]

/-- The statement that ends here, if the next one may begin; nothing has ended at the start. -/
def ended? : State → Option (List RawStatement)
  | .start => some []
  | .value ⟨head, []⟩ sum => some [head.complete sum]
  | .called request => some [.call request]
  | _ => none

def begun? (token : Token) : Option State :=
  match token.terminal with
  | .letWord => some (target token.line)
  | .printWord => some (operand ⟨.print token.line, []⟩ none)
  | .returnWord => some (operand ⟨.return token.line, []⟩ none)
  | .failWord => some (operand ⟨.fail token.line, []⟩ none)
  | .loadWord => some (path none false token.line)
  | .requireWord => some (path none true token.line)
  | _ => none

def leaf? (token : Token) : Option RawExpr :=
  match token.terminal with
  | .number => some (.number token token.line)
  | .string => some (.text token token.line)
  | .trueWord => some (.boolean true token.line)
  | .falseWord => some (.boolean false token.line)
  | .nilWord => some (.nil token.line)
  | .name => some (.name (String.ofList token.text) token.line)
  | _ => none

def continued? (state : State) (token : Token) : Option State :=
  match state, token.terminal with
  | .target line, .name => some (equals (String.ofList token.text) line)
  | .equals name line, .equals => some (operand ⟨.assign name line, []⟩ none)
  | .operand context pending, .opening =>
    some (operand ⟨context.head, pending :: context.outside⟩ none)
  | .operand context pending, .loadWord =>
    some (path (some (context, pending)) false token.line)
  | .operand context pending, .requireWord =>
    some (path (some (context, pending)) true token.line)
  | .operand context pending, _ =>
    (leaf? token).map fun leaf => value context (Pending.complete leaf pending)
  | .path none safe line, .string => some (called ⟨token, safe, line⟩)
  | .path (some (context, pending)) safe line, .string =>
    some (value context (Pending.complete (.call ⟨token, safe, line⟩) pending))
  | .value context sum, .plus => some (operand context (some sum))
  | .value ⟨head, pending :: outside⟩ sum, .closing =>
    some (value ⟨head, outside⟩ (Pending.complete sum pending))
  | _, _ => none

end State

end Reader

/-- The complete statements, the last one first, and the state of the open one. -/
structure Reader where
  complete : List RawStatement
  state : Reader.State
  deriving DecidableEq

namespace Reader

def begin : Reader := ⟨[], .start⟩

def step (reader : Reader) (token : Token) : Except (List Terminal) Reader :=
  match reader.state.continued? token with
  | some state => .ok { reader with state := state }
  | none =>
    match reader.state.ended?, State.begun? token with
    | some ended, some state => .ok ⟨ended ++ reader.complete, state⟩
    | _, _ => .error reader.state.accepted

def finish (reader : Reader) : Except (List Terminal) (List RawStatement) :=
  match reader.state.ended? with
  | some ended => .ok (ended ++ reader.complete).reverse
  | none => .error reader.state.accepted

end Reader

inductive SyntaxError where
  /-- A token, or the end of the text, stands where other terminals are expected. -/
  | unexpected (found : Option (List Char)) (expected : List Terminal) (line : Nat)
  | invalidCharacter (character : Char) (line : Nat)
  | invalidString (literal : List Char) (line : Nat)
  deriving DecidableEq

namespace Reader

def stepAll (reader : Reader) (lastLine : Nat) : List Token → Except SyntaxError (Reader × Nat)
  | [] => .ok (reader, lastLine)
  | token :: rest =>
    match reader.step token with
    | .ok next => stepAll next token.line rest
    | .error expected => .error (.unexpected (some token.text) expected token.line)

def read (scan : Scan) : Except SyntaxError (List RawStatement) :=
  match stepAll begin 1 scan.tokens with
  | .error e => .error e
  | .ok (reader, lastLine) =>
    match scan.ending with
    | .invalid character line => .error (.invalidCharacter character line)
    | .refused text expected line => .error (.unexpected (some text) expected line)
    | .endOfFile =>
      match reader.finish with
      | .ok statements => .ok statements
      | .error expected => .error (.unexpected none expected lastLine)

end Reader

end ScriptLoader.Script
