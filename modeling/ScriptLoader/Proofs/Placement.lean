import ScriptLoader.Proofs.Refusals
import ScriptLoader.Proofs.Sums

/-!
Where the nodes of a script stand. Every node has a token of the text from which it takes its line:
a statement and a call their word, a literal and a name themselves, a sum whatever its first operand
begins with. A derivation knows these tokens. In preorder they never step back in the text, so the
lines of the nodes never decrease.
-/

namespace ScriptLoader.Script

/-! ### Nodes -/

inductive Node where
  | statement (node : Statement Numeral CodePoints)
  | expr (node : Expr Numeral CodePoints)

def Node.line : Node → Nat
  | .statement node => node.line
  | .expr node => node.line

/-- A statement and the expressions in it, in preorder. One that only loads is a single node. -/
def Statement.preorder : Statement Numeral CodePoints → List Node
  | .call request => [.statement (.call request)]
  | statement => .statement statement :: statement.nodes.map .expr

def preorder (script : Script) : List Node :=
  script.statements.flatMap Statement.preorder

/-! ### The token of a node -/

open Grammar

/-- An expression has its line from this token: a literal or a name from itself, a call from its
word, and a sum from where its left operand has it. -/
inductive Expr.StandsAt : Expr Numeral CodePoints → Token → Prop
  | number {text : List Char} {value : Numeral} {line : Nat}
      (decoded : Literal.decodeNumber text = .ok value) :
      StandsAt (.number value line) ⟨.number, text, line⟩
  | text {text : List Char} {value : CodePoints} {line : Nat}
      (decoded : Literal.decodeString? text = some value) :
      StandsAt (.text value line) ⟨.string, text, line⟩
  | true {text : List Char} {line : Nat} :
      StandsAt (.boolean Bool.true line) ⟨.trueWord, text, line⟩
  | false {text : List Char} {line : Nat} :
      StandsAt (.boolean Bool.false line) ⟨.falseWord, text, line⟩
  | nil {text : List Char} {line : Nat} : StandsAt (.nil line) ⟨.nilWord, text, line⟩
  | name {text : List Char} {line : Nat} :
      StandsAt (.name (String.ofList text) line) ⟨.name, text, line⟩
  | call {path : CodePoints} {safe : Bool} {text : List Char} {line : Nat} :
      StandsAt (.call ⟨path, safe, line⟩) ⟨callWord safe, text, line⟩
  | add {left right : Expr Numeral CodePoints} {token : Token} (first : StandsAt left token) :
      StandsAt (.add left right) token

inductive Statement.StandsAt : Statement Numeral CodePoints → Token → Prop
  | assign {target : String} {value : Expr Numeral CodePoints} {text : List Char} {line : Nat} :
      StandsAt (.assign target value line) ⟨.letWord, text, line⟩
  | print {value : Expr Numeral CodePoints} {text : List Char} {line : Nat} :
      StandsAt (.print value line) ⟨.printWord, text, line⟩
  | return {value : Expr Numeral CodePoints} {text : List Char} {line : Nat} :
      StandsAt (.return value line) ⟨.returnWord, text, line⟩
  | fail {value : Expr Numeral CodePoints} {text : List Char} {line : Nat} :
      StandsAt (.fail value line) ⟨.failWord, text, line⟩
  | call {path : CodePoints} {safe : Bool} {text : List Char} {line : Nat} :
      StandsAt (.call ⟨path, safe, line⟩) ⟨callWord safe, text, line⟩

def Node.StandsAt : Node → Token → Prop
  | .statement node => node.StandsAt
  | .expr node => node.StandsAt

theorem Expr.StandsAt.line_eq {expr : Expr Numeral CodePoints} {token : Token}
    (h : expr.StandsAt token) : expr.line = token.line := by
  induction h with
  | add _ ih => exact ih
  | _ => rfl

theorem Node.StandsAt.line_eq {node : Node} {token : Token} (h : node.StandsAt token) :
    node.line = token.line := by
  cases node with
  | statement node => cases h <;> rfl
  | expr node => exact Expr.StandsAt.line_eq h

/-- Node by node, the lines of the nodes are those of the tokens. -/
theorem map_line_of_standsAt {nodes : List Node} {tokens : List Token}
    (h : List.Forall₂ Node.StandsAt nodes tokens) :
    nodes.map Node.line = tokens.map Token.line := by
  rw [← List.forall₂_eq_eq_eq, List.forall₂_map_left_iff, List.forall₂_map_right_iff]
  exact h.imp fun _ _ stands => stands.line_eq

namespace Grammar

/-! ### Lines of a text -/

/-- The tokens of a text are on lines that do not decrease. -/
theorem Reads.lines {before tokens : List Token} {line : Nat} {s : List Char}
    (h : Reads before line s tokens) :
    (∀ token ∈ tokens, line ≤ token.line) ∧ tokens.Pairwise fun a b => a.line ≤ b.line := by
  induction h with
  | done _ => exact ⟨by simp, .nil⟩
  | @token _ tokens line gap text _ _ _ _ _ ih =>
      obtain ⟨hleast, hsorted⟩ := ih
      have hlater : ∀ token ∈ tokens, line + gap.count '\n' ≤ token.line := by
        intro token hmem
        have hcount := hleast token hmem
        rw [List.count_append] at hcount
        omega
      refine ⟨?_, .cons hlater hsorted⟩
      intro token hmem
      rcases List.mem_cons.mp hmem with rfl | hmem
      · exact Nat.le_add_right _ _
      · exact (Nat.le_add_right _ _).trans (hlater token hmem)

/-- What stands before a token reads as the tokens before it, and has as many line feeds as the
token's line says. -/
theorem Reads.split {earlier before after : List Token} {token : Token} {line : Nat}
    {s : List Char} (h : Reads earlier line s (before ++ token :: after)) :
    ∃ front back, s = front ++ (token.text ++ back) ∧ Reads earlier line front before ∧
      token.line = line + front.count '\n' := by
  induction before generalizing earlier line s with
  | nil =>
      cases h with
      | @token _ _ _ gap _ rest _ between _ _ =>
          exact ⟨gap, rest, rfl, .done (.inl between), rfl⟩
  | cons first before ih =>
      cases h with
      | @token _ _ _ gap text rest terminal between taken later =>
          obtain ⟨front, back, rfl, hfront, hline⟩ := ih later
          have hcut : Taken (Viable earlier) terminal text (front ++ []) :=
            taken.respaced (show Apart [] by decide)
          rw [List.append_nil] at hcut
          refine ⟨gap ++ (text ++ front), back, by simp, .token between hcut hfront, ?_⟩
          rw [hline]
          simp only [List.count_append]
          omega

/-! ### The tokens of a derivation that nodes take their lines from -/

/-- The token of the leftmost leaf; parentheses in front of it do not count. -/
def ExprTree.leading {rank : Rank} : ExprTree rank → Token
  | .operand atom => atom.leading
  | .add left _ _ => left.leading
  | .number leaf => leaf.token
  | .string leaf => leaf.token
  | .true leaf => leaf.token
  | .false leaf => leaf.token
  | .nil leaf => leaf.token
  | .name leaf => leaf.token
  | .call tree => tree.word.token
  | .parens _ inside _ => inside.leading

def ExprTree.anchors {rank : Rank} : ExprTree rank → List Token
  | .operand atom => atom.anchors
  | .add left _ right => left.leading :: (left.anchors ++ right.anchors)
  | .parens _ inside _ => inside.anchors
  | leaf => [leaf.leading]

def StatementTree.anchors : StatementTree → List Token
  | .assign word _ _ value => word.token :: value.anchors
  | .print word value => word.token :: value.anchors
  | .return word value => word.token :: value.anchors
  | .fail word value => word.token :: value.anchors
  | .call tree => [tree.word.token]

def ScriptTree.anchors (tree : ScriptTree) : List Token := tree.flatMap StatementTree.anchors

theorem ExprTree.leading_mem {rank : Rank} (tree : ExprTree rank) : tree.leading ∈ tree.tokens := by
  induction tree with
  | operand atom ih => exact ih
  | add left plus right ihleft _ => exact List.mem_append_left _ ihleft
  | parens opening inside closing ih => exact List.mem_cons_of_mem _ (List.mem_append_left _ ih)
  | _ => exact List.mem_cons_self

theorem ExprTree.anchors_subset {rank : Rank} (tree : ExprTree rank) :
    tree.anchors ⊆ tree.tokens := by
  induction tree with
  | operand atom ih => exact ih
  | add left plus right ihleft ihright =>
      intro token hmem
      rcases List.mem_cons.mp hmem with rfl | hmem
      · exact List.mem_append_left _ left.leading_mem
      · rcases List.mem_append.mp hmem with hmem | hmem
        · exact List.mem_append_left _ (ihleft hmem)
        · exact List.mem_append_right _ (List.mem_cons_of_mem _ (ihright hmem))
  | parens opening inside closing ih =>
      intro token hmem
      exact List.mem_cons_of_mem _ (List.mem_append_left _ (ih hmem))
  | call tree => exact List.cons_subset_cons _ (List.nil_subset _)
  | _ => exact List.Subset.refl _

theorem StatementTree.anchors_subset (tree : StatementTree) : tree.anchors ⊆ tree.tokens := by
  cases tree with
  | assign word name sign value =>
      intro token hmem
      rcases List.mem_cons.mp hmem with rfl | hmem
      · exact List.mem_cons_self
      · have hvalue : token ∈ value.tokens := value.anchors_subset hmem
        simp [tokens, hvalue]
  | print word value | «return» word value | fail word value =>
      exact List.cons_subset_cons _ value.anchors_subset
  | call tree => exact List.cons_subset_cons _ (List.nil_subset _)

theorem ScriptTree.anchors_subset (tree : ScriptTree) : tree.anchors ⊆ tree.tokens := by
  intro token hmem
  obtain ⟨statement, hstatement, htoken⟩ := List.mem_flatMap.mp hmem
  exact List.mem_flatMap.mpr ⟨statement, hstatement, statement.anchors_subset htoken⟩

/-! ### Their order -/

section Order

variable {r : Token → Token → Prop} [Std.Refl r]

/-- If the tokens of an expression are in order, so are those of its nodes, behind the leading one
that some of them share. -/
theorem ExprTree.pairwise_anchors {rank : Rank} {tree : ExprTree rank}
    (h : tree.tokens.Pairwise r) : (tree.leading :: tree.anchors).Pairwise r := by
  induction tree with
  | operand atom ih => exact ih h
  | add left plus right ihleft ihright =>
      obtain ⟨hleft, hright, hcross⟩ := List.pairwise_append.mp h
      obtain ⟨-, hright⟩ := List.pairwise_cons.mp hright
      have hbetween : ∀ a ∈ left.tokens, ∀ b ∈ right.anchors, r a b := fun a ha b hb =>
        hcross a ha b (List.mem_cons_of_mem _ (right.anchors_subset hb))
      have hall : (left.leading :: left.anchors ++ right.anchors).Pairwise r := by
        refine List.pairwise_append.mpr ⟨ihleft hleft, (ihright hright).tail, ?_⟩
        intro a ha
        refine hbetween a ?_
        exact List.cons_subset.mpr ⟨left.leading_mem, left.anchors_subset⟩ ha
      -- the sum and its left operand share the leading token
      refine .cons ?_ hall
      intro token hmem
      rcases List.mem_cons.mp hmem with rfl | hmem
      · exact refl _
      · exact List.rel_of_pairwise_cons hall hmem
  | parens opening inside closing ih =>
      exact ih (List.pairwise_append.mp (List.pairwise_cons.mp h).2).1
  | _ => exact List.pairwise_pair.mpr (refl _)

theorem StatementTree.pairwise_anchors {tree : StatementTree} (h : tree.tokens.Pairwise r) :
    tree.anchors.Pairwise r := by
  have hvalue {token : Token} {value : ExprTree .expr}
      (h : (token :: value.tokens).Pairwise r) : (token :: value.anchors).Pairwise r := by
    obtain ⟨hfirst, hrest⟩ := List.pairwise_cons.mp h
    exact .cons (fun later hmem => hfirst later (value.anchors_subset hmem))
      (ExprTree.pairwise_anchors hrest).tail
  cases tree with
  | assign word name sign value =>
      have hskip : (word.token :: value.tokens).Sublist
          (word.token :: name.token :: sign.token :: value.tokens) :=
        .cons_cons _ (.cons _ (.cons _ (List.Sublist.refl _)))
      exact hvalue (h.sublist hskip)
  | print word value | «return» word value | fail word value => exact hvalue h
  | call tree => exact List.pairwise_singleton _ _

theorem ScriptTree.pairwise_anchors {tree : ScriptTree} (h : tree.tokens.Pairwise r) :
    tree.anchors.Pairwise r := by
  induction tree with
  | nil => exact .nil
  | cons first rest ih =>
      obtain ⟨hfirst, hrest, hcross⟩ := List.pairwise_append.mp h
      refine List.pairwise_append.mpr ⟨StatementTree.pairwise_anchors hfirst, ih hrest, ?_⟩
      intro a ha b hb
      exact hcross a (first.anchors_subset ha) b (ScriptTree.anchors_subset rest hb)

end Order

/-! ### The nodes that stand at them -/

theorem exists_string_of_decode {token : Token} {value : CodePoints}
    (h : Literal.string token = .ok value) : Literal.decodeString? token.text = some value := by
  unfold Literal.string at h
  split at h
  · cases h
    assumption
  · cases h

theorem exists_number_of_decode {token : Token} {value : Numeral}
    (h : Literal.number token = .ok value) : Literal.decodeNumber token.text = .ok value := by
  unfold Literal.number at h
  split at h
  · cases h
    assumption
  · cases h

theorem CallTree.exists_request {tree : CallTree} {request : Call CodePoints}
    (h : tree.request.decode = .ok request) :
    ∃ path, request = ⟨path, tree.safe, tree.word.line⟩ := by
  obtain ⟨path, -, rfl⟩ := exists_of_map_eq_ok h
  exact ⟨path, rfl⟩

/-- What an expression in a text stands for stands at its leading token, and its nodes stand at the
tokens of the derivation. -/
theorem ExprTree.standsAt {rank : Rank} {tree : ExprTree rank} {expr : Expr Numeral CodePoints}
    (h : tree.expr.decode = .ok expr) :
    expr.StandsAt tree.leading ∧ List.Forall₂ Expr.StandsAt expr.nodes tree.anchors := by
  have hleaf {expr : Expr Numeral CodePoints} {token : Token} (hnodes : expr.nodes = [expr])
      (stands : expr.StandsAt token) :
      expr.StandsAt token ∧ List.Forall₂ Expr.StandsAt expr.nodes [token] :=
    ⟨stands, hnodes ▸ .cons stands .nil⟩
  induction tree generalizing expr with
  | operand atom ih => exact ih h
  | add left plus right ihleft ihright =>
      obtain ⟨a, b, hleft, hright, rfl⟩ := decode_add h
      obtain ⟨stands, hleftNodes⟩ := ihleft hleft
      exact ⟨.add stands, .cons (.add stands) (List.rel_append hleftNodes (ihright hright).2)⟩
  | number leaf =>
      obtain ⟨value, hvalue, rfl⟩ := exists_of_map_eq_ok h
      exact hleaf rfl (.number (exists_number_of_decode hvalue))
  | string leaf =>
      obtain ⟨value, hvalue, rfl⟩ := exists_of_map_eq_ok h
      exact hleaf rfl (.text (exists_string_of_decode hvalue))
  | true leaf =>
      cases h
      exact hleaf rfl .true
  | false leaf =>
      cases h
      exact hleaf rfl .false
  | nil leaf =>
      cases h
      exact hleaf rfl .nil
  | name leaf =>
      cases h
      exact hleaf rfl .name
  | call tree =>
      obtain ⟨request, hrequest, rfl⟩ := exists_of_map_eq_ok h
      obtain ⟨path, rfl⟩ := CallTree.exists_request hrequest
      exact hleaf rfl .call
  | parens opening inside closing ih => exact ih h

theorem StatementTree.standsAt {tree : StatementTree} {statement : Statement Numeral CodePoints}
    (h : tree.statement.decode = .ok statement) :
    List.Forall₂ Node.StandsAt statement.preorder tree.anchors := by
  have hvalue {value : ExprTree .expr} {expr : Expr Numeral CodePoints}
      (h : value.expr.decode = .ok expr) :
      List.Forall₂ Node.StandsAt (expr.nodes.map .expr) value.anchors :=
    List.forall₂_map_left_iff.mpr (ExprTree.standsAt h).2
  cases tree with
  | assign word name sign value =>
      obtain ⟨expr, hexpr, rfl⟩ := exists_of_map_eq_ok h
      exact .cons .assign (hvalue hexpr)
  | print word value =>
      obtain ⟨expr, hexpr, rfl⟩ := exists_of_map_eq_ok h
      exact .cons .print (hvalue hexpr)
  | «return» word value =>
      obtain ⟨expr, hexpr, rfl⟩ := exists_of_map_eq_ok h
      exact .cons .return (hvalue hexpr)
  | fail word value =>
      obtain ⟨expr, hexpr, rfl⟩ := exists_of_map_eq_ok h
      exact .cons .fail (hvalue hexpr)
  | call tree =>
      obtain ⟨request, hrequest, rfl⟩ := exists_of_map_eq_ok h
      obtain ⟨path, rfl⟩ := CallTree.exists_request hrequest
      exact .cons .call .nil

theorem ScriptTree.standsAt {tree : ScriptTree} {statements : List (Statement Numeral CodePoints)}
    (h : Statement.decodeAll tree.statements = .ok statements) :
    List.Forall₂ Node.StandsAt (statements.flatMap Statement.preorder) tree.anchors := by
  induction tree generalizing statements with
  | nil =>
      cases h
      exact .nil
  | cons first rest ih =>
      rw [ScriptTree.statements, List.map_cons, Statement.decodeAll] at h
      split at h
      · cases h
      · rename_i statement hfirst
        obtain ⟨others, hrest, rfl⟩ := exists_of_map_eq_ok h
        exact List.rel_append (StatementTree.standsAt hfirst) (ih hrest)

end Grammar

/-! ### Scripts -/

/-- Every node of a script that a text gives has the line on which its token stands. The text has
a derivation, and each token of it is read behind a text that reads as the tokens before it; the
line of the token is one more than the number of line feeds in that text. Some of these tokens are
matched with the nodes in preorder: a statement and a call stand at their word, a literal and a name
at the token that they are read from, and a sum where its left operand stands. So the lines of the
nodes in preorder never decrease, and all of them are lines of the text. -/
theorem nodes_stand_at_tokens {file : Option String} {s : List Char} {script : Script}
    (h : parse file s = .ok script) :
    ∃ tree : ScriptTree, Reads [] 1 s tree.tokens ∧
      (∀ before token after, tree.tokens = before ++ token :: after →
        ∃ front back, s = front ++ (token.text ++ back) ∧ Reads [] 1 front before ∧
          token.line = 1 + front.count '\n') ∧
      tree.anchors ⊆ tree.tokens ∧
      List.Forall₂ (fun node token => node.StandsAt token ∧ node.line = token.line)
        script.preorder tree.anchors ∧
      (script.preorder.map Node.line).Pairwise (· ≤ ·) ∧
      ∀ node ∈ script.preorder, IsLine s node.line := by
  obtain ⟨-, hstatements⟩ := (parse_iff file s script).mp h
  obtain ⟨raw, hread, hdecode⟩ := (readStatements_iff s script.statements).mp hstatements
  obtain ⟨tree, hreads, rfl⟩ := (read_ofText_iff s raw).mp hread
  have hplaced : ∀ before token after, tree.tokens = before ++ token :: after →
      ∃ front back, s = front ++ (token.text ++ back) ∧ Reads [] 1 front before ∧
        token.line = 1 + front.count '\n' := by
    intro before token after hsplit
    rw [hsplit] at hreads
    exact hreads.split
  have hstands : List.Forall₂ Node.StandsAt script.preorder tree.anchors :=
    ScriptTree.standsAt hdecode
  have hlines := map_line_of_standsAt hstands
  refine ⟨tree, hreads, hplaced, tree.anchors_subset, ?_, ?_, ?_⟩
  · exact hstands.imp fun _ _ stands => ⟨stands, stands.line_eq⟩
  · have : Std.Refl fun a b : Token => a.line ≤ b.line := ⟨fun _ => Nat.le_refl _⟩
    rw [hlines]
    exact List.pairwise_map.mpr (ScriptTree.pairwise_anchors hreads.lines.2)
  · intro node hnode
    have hmem : node.line ∈ tree.anchors.map Token.line := hlines ▸ List.mem_map_of_mem hnode
    obtain ⟨token, htoken, hline⟩ := List.mem_map.mp hmem
    obtain ⟨before, after, hsplit⟩ := List.append_of_mem (tree.anchors_subset htoken)
    obtain ⟨front, back, rfl, -, hcount⟩ := hplaced before token after hsplit
    rw [← hline, hcount]
    exact isLine_of_front front _

def spreadText : List Char :=
  "let a = ; first\n((\n1) + b\n+ load \"m\") require \"n\"\nprint true".toList

/-- Both sums and the first operand stand at the number on the third line. -/
theorem nodes_stand_at_tokens_spread :
    ∃ script tree, parse none spreadText = .ok script ∧
      Reads [] 1 spreadText (ScriptTree.tokens tree) ∧
      List.Forall₂ Node.StandsAt script.preorder (ScriptTree.anchors tree) ∧
      (ScriptTree.anchors tree).map Token.line = [1, 3, 3, 3, 3, 4, 4, 5, 5] := by
  have hparse : parse none spreadText = .ok ⟨none, [.assign "a"
      (.add (.add (.number (.int 1) 3) (.name "b" 3)) (.call ⟨"m", false, 4⟩)) 1,
      .call ⟨"n", true, 4⟩, .print (.boolean true 5) 5]⟩ := by with_unfolding_all rfl
  obtain ⟨tree, hreads, -, -, hstands, -⟩ := nodes_stand_at_tokens hparse
  have hnodes := hstands.imp fun _ _ h => h.1
  exact ⟨_, tree, hparse, hreads, hnodes, (map_line_of_standsAt hnodes).symm⟩

end ScriptLoader.Script
