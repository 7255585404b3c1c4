import ScriptLoader.Script.Value

/-!
Expressions and statements. They are read with the texts of their literals and run with the values
of these; the types are the same but for the literals, numbers `ν` and texts `τ`.
-/

namespace ScriptLoader.Script

/-- A request for another module; a safe one reports failures by the name that was asked for. -/
structure Call (τ : Type) where
  path : τ
  safe : Bool
  line : Nat
  deriving DecidableEq

inductive Expr (ν τ : Type) where
  | number (value : ν) (line : Nat)
  | text (value : τ) (line : Nat)
  | boolean (value : Bool) (line : Nat)
  | nil (line : Nat)
  | name (identifier : String) (line : Nat)
  | call (request : Call τ)
  | add (left right : Expr ν τ)
  deriving DecidableEq

inductive Statement (ν τ : Type) where
  | assign (target : String) (value : Expr ν τ) (line : Nat)
  | print (value : Expr ν τ) (line : Nat)
  | return (value : Expr ν τ) (line : Nat)
  | fail (value : Expr ν τ) (line : Nat)
  | call (request : Call τ)
  deriving DecidableEq

section

variable {ν ν' τ τ' : Type}

def Call.map (text : τ → τ') (line : Nat → Nat) (request : Call τ) : Call τ' :=
  ⟨text request.path, request.safe, line request.line⟩

def Expr.map (number : ν → ν') (text : τ → τ') (line : Nat → Nat) : Expr ν τ → Expr ν' τ'
  | .number value at' => .number (number value) (line at')
  | .text value at' => .text (text value) (line at')
  | .boolean value at' => .boolean value (line at')
  | .nil at' => .nil (line at')
  | .name identifier at' => .name identifier (line at')
  | .call request => .call (request.map text line)
  | .add left right => .add (left.map number text line) (right.map number text line)

def Statement.map (number : ν → ν') (text : τ → τ') (line : Nat → Nat) :
    Statement ν τ → Statement ν' τ'
  | .assign target value at' => .assign target (value.map number text line) (line at')
  | .print value at' => .print (value.map number text line) (line at')
  | .return value at' => .return (value.map number text line) (line at')
  | .fail value at' => .fail (value.map number text line) (line at')
  | .call request => .call (request.map text line)

end

namespace Expr

variable {ν τ : Type}

/-- A sum is on the line on which its first operand is. -/
def line : Expr ν τ → Nat
  | .number _ line => line
  | .text _ line => line
  | .boolean _ line => line
  | .nil line => line
  | .name _ line => line
  | .call request => request.line
  | .add left _ => left.line

end Expr

namespace Statement

variable {ν τ : Type}

def line : Statement ν τ → Nat
  | .assign _ _ line => line
  | .print _ line => line
  | .return _ line => line
  | .fail _ line => line
  | .call request => request.line

end Statement

end ScriptLoader.Script

namespace ScriptLoader

structure Script where
  file : Option String
  statements : List (Script.Statement Script.Numeral CodePoints)

end ScriptLoader
