import ScriptLoader.Script.Reader

/-!
The grammar of scripts as derivation trees. A tree has one constructor for each alternative of a
rule; it gives back the tokens that it derives, in order, and the statements that it stands for.
Nothing here says how tokens are read.
-/

namespace ScriptLoader.Script.Grammar

structure Leaf (terminal : Terminal) where
  text : List Char
  line : Nat

namespace Leaf

variable {terminal : Terminal}

def token (leaf : Leaf terminal) : Token := ⟨terminal, leaf.text, leaf.line⟩

@[simp] theorem token_mk (text : List Char) (line : Nat) :
    (⟨text, line⟩ : Leaf terminal).token = ⟨terminal, text, line⟩ := rfl

end Leaf

def callWord : Bool → Terminal
  | false => .loadWord
  | true => .requireWord

structure CallTree where
  safe : Bool
  word : Leaf (callWord safe)
  path : Leaf .string

namespace CallTree

def tokens (tree : CallTree) : List Token := [tree.word.token, tree.path.token]

def request (tree : CallTree) : Call Token := ⟨tree.path.token, tree.safe, tree.word.line⟩

end CallTree

/-- The two nonterminals of expressions: sums, and their operands. -/
inductive Rank where
  | expr
  | atom

inductive ExprTree : Rank → Type where
  | operand (atom : ExprTree .atom) : ExprTree .expr
  | add (left : ExprTree .expr) (plus : Leaf .plus) (right : ExprTree .atom) : ExprTree .expr
  | number (leaf : Leaf .number) : ExprTree .atom
  | string (leaf : Leaf .string) : ExprTree .atom
  | true (leaf : Leaf .trueWord) : ExprTree .atom
  | false (leaf : Leaf .falseWord) : ExprTree .atom
  | nil (leaf : Leaf .nilWord) : ExprTree .atom
  | name (leaf : Leaf .name) : ExprTree .atom
  | call (tree : CallTree) : ExprTree .atom
  | parens (opening : Leaf .opening) (inside : ExprTree .expr) (closing : Leaf .closing) :
      ExprTree .atom

namespace ExprTree

def tokens {rank : Rank} : ExprTree rank → List Token
  | .operand atom => atom.tokens
  | .add left plus right => left.tokens ++ plus.token :: right.tokens
  | .number leaf => [leaf.token]
  | .string leaf => [leaf.token]
  | .true leaf => [leaf.token]
  | .false leaf => [leaf.token]
  | .nil leaf => [leaf.token]
  | .name leaf => [leaf.token]
  | .call tree => tree.tokens
  | .parens opening inside closing => opening.token :: (inside.tokens ++ [closing.token])

/-- The expression that a tree stands for; parentheses leave no node. -/
def expr {rank : Rank} : ExprTree rank → RawExpr
  | .operand atom => atom.expr
  | .add left _ right => .add left.expr right.expr
  | .number leaf => .number leaf.token leaf.line
  | .string leaf => .text leaf.token leaf.line
  | .true leaf => .boolean Bool.true leaf.line
  | .false leaf => .boolean Bool.false leaf.line
  | .nil leaf => .nil leaf.line
  | .name leaf => .name (String.ofList leaf.text) leaf.line
  | .call tree => .call tree.request
  | .parens _ inside _ => inside.expr

end ExprTree

inductive StatementTree where
  | assign (word : Leaf .letWord) (name : Leaf .name) (sign : Leaf .equals)
      (value : ExprTree .expr)
  | print (word : Leaf .printWord) (value : ExprTree .expr)
  | return (word : Leaf .returnWord) (value : ExprTree .expr)
  | fail (word : Leaf .failWord) (value : ExprTree .expr)
  | call (tree : CallTree)

namespace StatementTree

def tokens : StatementTree → List Token
  | .assign word name sign value => word.token :: name.token :: sign.token :: value.tokens
  | .print word value => word.token :: value.tokens
  | .return word value => word.token :: value.tokens
  | .fail word value => word.token :: value.tokens
  | .call tree => tree.tokens

def statement : StatementTree → RawStatement
  | .assign word name _ value => .assign (String.ofList name.text) value.expr word.line
  | .print word value => .print value.expr word.line
  | .return word value => .return value.expr word.line
  | .fail word value => .fail value.expr word.line
  | .call tree => .call tree.request

end StatementTree

/-- A script is any number of statements, with nothing between them. -/
abbrev ScriptTree := List StatementTree

namespace ScriptTree

def tokens (tree : ScriptTree) : List Token := tree.flatMap StatementTree.tokens

@[simp] theorem tokens_append (earlier later : ScriptTree) :
    ScriptTree.tokens (earlier ++ later) = earlier.tokens ++ later.tokens := by
  simp [tokens]

def statements (tree : ScriptTree) : List RawStatement := tree.map StatementTree.statement

end ScriptTree

/-- After some tokens there may come a token of a terminal: some script begins so. -/
def Viable (before : List Token) (terminal : Terminal) : Prop :=
  ∃ token after, ∃ tree : ScriptTree,
    token.terminal = terminal ∧ ScriptTree.tokens tree = before ++ token :: after

end ScriptLoader.Script.Grammar
