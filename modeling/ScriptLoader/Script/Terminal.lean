/-!
The terminals of the script language, and the modes in which it is scanned. What a text may mean
depends on the mode: a statement word counts as such where a statement may begin, any identifier
is a name after `let`, and a sign belongs to a number where an operand is due. The mode after a
terminal depends on that terminal and the mode before it only, not on open parentheses.
-/

namespace ScriptLoader.Script

inductive Terminal where
  | letWord
  | printWord
  | returnWord
  | failWord
  | loadWord
  | requireWord
  | trueWord
  | falseWord
  | nilWord
  | name
  | number
  | string
  | equals
  | plus
  | opening
  | closing
  | endOfFile
  deriving DecidableEq

namespace Terminal

def label : Terminal → String
  | letWord => "'let'"
  | printWord => "'print'"
  | returnWord => "'return'"
  | failWord => "'fail'"
  | loadWord => "'load'"
  | requireWord => "'require'"
  | trueWord => "'true'"
  | falseWord => "'false'"
  | nilWord => "'nil'"
  | name => "a variable name"
  | number => "a number"
  | string => "a string in double quotes"
  | equals => "an equals sign '='"
  | plus => "a plus sign '+'"
  | opening => "an opening parenthesis '('"
  | closing => "a closing parenthesis ')'"
  | endOfFile => "the end of the file"

def statementWords : List (List Char × Terminal) :=
  [("let".toList, letWord), ("print".toList, printWord), ("return".toList, returnWord),
    ("fail".toList, failWord), ("load".toList, loadWord), ("require".toList, requireWord)]

def operandWords : List (List Char × Terminal) :=
  [("load".toList, loadWord), ("require".toList, requireWord), ("true".toList, trueWord),
    ("false".toList, falseWord), ("nil".toList, nilWord)]

def statementStarts : List Terminal :=
  statementWords.map (·.2)

def operandMarks : List Terminal := [number, string, name, opening]

def operandStarts : List Terminal :=
  operandMarks ++ operandWords.map (·.2)

end Terminal

/-- What is looked for at a point of the text. -/
inductive Mode where
  /-- The first statement. -/
  | start
  /-- The name that a `let` binds. -/
  | target
  /-- The sign after that name. -/
  | equals
  /-- An operand. -/
  | operand
  /-- The path after `load` or `require`. -/
  | path
  /-- What may follow an operand: more of the expression, or the next statement. -/
  | valueEnd
  deriving DecidableEq

namespace Mode

def after (mode : Mode) : Terminal → Mode
  | .letWord => target
  | .printWord | .returnWord | .failWord => operand
  | .loadWord | .requireWord => path
  | .equals | .plus | .opening => operand
  | .name => if mode = target then equals else valueEnd
  | _ => valueEnd

/-- The terminals that are named as expected if nothing in the text fits the mode. -/
def expected : Mode → List Terminal
  | start => Terminal.statementStarts
  | target => [.name]
  | equals => [.equals]
  | operand => Terminal.operandMarks
  | path => [.string]
  | valueEnd => Terminal.statementStarts ++ [.closing, .plus]

end Mode

end ScriptLoader.Script
