import ScriptLoader.Proofs.Progress
import ScriptLoader.Script.Parse

/-!
Lines carry no meaning. Tokens that differ only in their lines are derived by trees that differ only
in their lines, and decoding literals leaves lines as they are. `Means` says what tokens stand for;
two lists of tokens that agree when their lines are changed, stand for statements that agree when
their lines are changed so.
-/

namespace ScriptLoader.Script

/-! ### Changing lines -/

section

variable {ν τ : Type}

def Expr.mapLine (f : Nat → Nat) : Expr ν τ → Expr ν τ := Expr.map id id f

def Statement.mapLine (f : Nat → Nat) : Statement ν τ → Statement ν τ := Statement.map id id f

end

def Token.mapLine (f : Nat → Nat) (token : Token) : Token := { token with line := f token.line }

def RawExpr.mapLine (f : Nat → Nat) : RawExpr → RawExpr :=
  Expr.map (Token.mapLine f) (Token.mapLine f) f

def RawStatement.mapLine (f : Nat → Nat) : RawStatement → RawStatement :=
  Statement.map (Token.mapLine f) (Token.mapLine f) f

@[simp] theorem Expr.mapLine_id {ν τ : Type} (expr : Expr ν τ) : expr.mapLine id = expr := by
  induction expr with
  | add left right ihleft ihright =>
      show Expr.add (left.mapLine id) (right.mapLine id) = _
      rw [ihleft, ihright]
  | _ => rfl

@[simp] theorem Statement.mapLine_id {ν τ : Type} (statement : Statement ν τ) :
    statement.mapLine id = statement := by
  have hvalue (value : Expr ν τ) : value.map id id id = value := value.mapLine_id
  cases statement with
  | call request => rfl
  | _ => simp only [mapLine, map, hvalue, id]

/-! ### Decoding -/

namespace Unreadable

/-- The same reason on another line; an integer that is too long has none. -/
def mapLine (f : Nat → Nat) : Unreadable → Unreadable
  | malformed (.unexpected found expected line) => malformed (.unexpected found expected (f line))
  | malformed (.invalidCharacter character line) => malformed (.invalidCharacter character (f line))
  | malformed (.invalidString literal line) => malformed (.invalidString literal (f line))
  | tooManyDigits error => tooManyDigits error

def moved {α : Type} (f : Nat → Nat) (moveValue : α → α) (result : Except Unreadable α) :
    Except Unreadable α :=
  (result.mapError (mapLine f)).map moveValue

end Unreadable

section Decoding

open Unreadable

variable (f : Nat → Nat)

@[simp] theorem Literal.string_mapLine (token : Token) :
    Literal.string (token.mapLine f) = moved f id (Literal.string token) := by
  simp only [Literal.string, Token.mapLine]
  rcases Literal.decodeString? token.text with _ | text <;> rfl

@[simp] theorem Literal.number_mapLine (token : Token) :
    Literal.number (token.mapLine f) = moved f id (Literal.number token) := by
  simp only [Literal.number, Token.mapLine]
  rcases Literal.decodeNumber token.text with error | value <;> rfl

@[simp] theorem Call.decode_mapLine (request : Call Token) :
    Call.decode (request.map (Token.mapLine f) f) = moved f (Call.map id f) request.decode := by
  simp only [decode, map, Literal.string_mapLine]
  rcases Literal.string request.path with error | path <;> rfl

/-- Decoding the literals of an expression leaves its lines as they are. -/
@[simp] theorem Expr.decode_mapLine (expr : RawExpr) :
    Expr.decode (RawExpr.mapLine f expr) = moved f (Expr.mapLine f) expr.decode := by
  induction expr with
  | number value line =>
      simp only [RawExpr.mapLine, map, decode, Literal.number_mapLine]
      rcases Literal.number value with error | number <;> rfl
  | text value line =>
      simp only [RawExpr.mapLine, map, decode, Literal.string_mapLine]
      rcases Literal.string value with error | text <;> rfl
  | call request =>
      simp only [RawExpr.mapLine, map, decode, Call.decode_mapLine]
      rcases request.decode with error | decoded <;> rfl
  | add left right ihleft ihright =>
      show Expr.decode (.add (RawExpr.mapLine f left) (RawExpr.mapLine f right)) = _
      simp only [decode, ihleft, ihright]
      rcases left.decode with error | a
      · rfl
      · rcases right.decode with error | b <;> rfl
  | _ => rfl

@[simp] theorem Statement.decode_mapLine (statement : RawStatement) :
    Statement.decode (RawStatement.mapLine f statement) =
      moved f (Statement.mapLine f) statement.decode := by
  cases statement with
  | call request =>
      simp only [RawStatement.mapLine, map, decode, Call.decode_mapLine]
      rcases request.decode with error | decoded <;> rfl
  | assign target value line | print value line | «return» value line | fail value line =>
      have hvalue : Expr.decode (value.map (Token.mapLine f) (Token.mapLine f) f) =
          moved f (Expr.mapLine f) value.decode := value.decode_mapLine f
      simp only [RawStatement.mapLine, map, decode, hvalue]
      rcases value.decode with error | decoded <;> rfl

theorem Statement.decodeAll_mapLine (statements : List RawStatement) :
    Statement.decodeAll (statements.map (RawStatement.mapLine f)) =
      moved f (List.map (Statement.mapLine f)) (Statement.decodeAll statements) := by
  induction statements with
  | nil => rfl
  | cons statement rest ih =>
      simp only [List.map_cons, decodeAll, decode_mapLine, ih]
      rcases statement.decode with error | decoded
      · rfl
      · rcases decodeAll rest with error | others <;> rfl

end Decoding

theorem Statement.decodeAll_append {first second : List RawStatement}
    {decoded others : List (Statement Numeral CodePoints)} (hfirst : decodeAll first = .ok decoded)
    (hsecond : decodeAll second = .ok others) :
    decodeAll (first ++ second) = .ok (decoded ++ others) := by
  induction first generalizing decoded with
  | nil =>
      cases hfirst
      exact hsecond
  | cons statement rest ih =>
      rw [List.cons_append, decodeAll]
      rw [decodeAll] at hfirst
      rcases hstatement : statement.decode with error | head
      · rw [hstatement] at hfirst
        cases hfirst
      · rw [hstatement] at hfirst
        rcases hrest : decodeAll rest with error | tail
        · simp only [hrest] at hfirst
          cases hfirst
        · simp only [hrest] at hfirst
          cases hfirst
          rw [ih hrest]
          rfl

/-! ### Derivations -/

namespace Grammar

/-- Tokens agree if those of the one list, with their lines changed in one way, are those of the
other with theirs changed in another way. -/
def Agree (f g : Nat → Nat) (tokens others : List Token) : Prop :=
  tokens.map (Token.mapLine f) = others.map (Token.mapLine g)

section Agree

variable {f g : Nat → Nat}

theorem Agree.of_append {tokens first second : List Token}
    (h : Agree f g tokens (first ++ second)) :
    ∃ first' second', tokens = first' ++ second' ∧ Agree f g first' first ∧
      Agree f g second' second := by
  rw [Agree, List.map_append, List.map_eq_append_iff] at h
  exact h

theorem Agree.of_nil {tokens : List Token} (h : Agree f g tokens []) : tokens = [] :=
  List.map_eq_nil_iff.mp h

theorem Agree.of_cons {tokens rest : List Token} {terminal : Terminal} {leaf : Leaf terminal}
    (h : Agree f g tokens (leaf.token :: rest)) :
    ∃ (leaf' : Leaf terminal) (rest' : List Token), tokens = leaf'.token :: rest' ∧
      leaf'.text = leaf.text ∧ f leaf'.line = g leaf.line ∧ Agree f g rest' rest := by
  obtain ⟨⟨terminal', text, line⟩, rest', rfl, htoken, hrest⟩ := List.map_eq_cons_iff.mp h
  simp only [Token.mapLine, Leaf.token, Token.mk.injEq] at htoken
  obtain ⟨rfl, htext, hline⟩ := htoken
  exact ⟨⟨text, line⟩, rest', rfl, htext, hline, hrest⟩

theorem Agree.of_singleton {tokens : List Token} {terminal : Terminal} {leaf : Leaf terminal}
    (h : Agree f g tokens [leaf.token]) :
    ∃ leaf' : Leaf terminal, tokens = [leaf'.token] ∧ leaf'.text = leaf.text ∧
      f leaf'.line = g leaf.line := by
  obtain ⟨leaf', rest, rfl, htext, hline, hrest⟩ := h.of_cons
  rw [hrest.of_nil]
  exact ⟨leaf', rfl, htext, hline⟩

theorem Leaf.mapLine_token {terminal : Terminal} {leaf leaf' : Leaf terminal}
    (htext : leaf'.text = leaf.text) (hline : f leaf'.line = g leaf.line) :
    leaf'.token.mapLine f = leaf.token.mapLine g := by
  simp only [token, Token.mapLine, htext, hline]

theorem exists_callTree {tokens : List Token} {tree : CallTree} (h : Agree f g tokens tree.tokens) :
    ∃ tree' : CallTree, tree'.tokens = tokens ∧
      tree'.request.map (Token.mapLine f) f = tree.request.map (Token.mapLine g) g := by
  obtain ⟨safe, word, path⟩ := tree
  obtain ⟨word', rest, rfl, -, hword, hrest⟩ := h.of_cons
  obtain ⟨path', rfl, htext, hpath⟩ := hrest.of_singleton
  refine ⟨⟨safe, word', path'⟩, rfl, ?_⟩
  simp only [CallTree.request, Call.map, Leaf.mapLine_token htext hpath, hword]

theorem exists_exprTree {rank : Rank} {tree : ExprTree rank} {tokens : List Token}
    (h : Agree f g tokens tree.tokens) :
    ∃ tree' : ExprTree rank, tree'.tokens = tokens ∧
      RawExpr.mapLine f tree'.expr = RawExpr.mapLine g tree.expr := by
  induction tree generalizing tokens with
  | operand atom ih =>
      obtain ⟨atom', rfl, hexpr⟩ := ih h
      exact ⟨.operand atom', rfl, hexpr⟩
  | add left plus right ihleft ihright =>
      obtain ⟨first, second, rfl, hfirst, hsecond⟩ := h.of_append
      obtain ⟨plus', rest, rfl, -, -, hrest⟩ := hsecond.of_cons
      obtain ⟨left', rfl, hleft⟩ := ihleft hfirst
      obtain ⟨right', rfl, hright⟩ := ihright hrest
      refine ⟨.add left' plus' right', rfl, ?_⟩
      show Expr.add (RawExpr.mapLine f left'.expr) (RawExpr.mapLine f right'.expr) = _
      rw [hleft, hright]
      rfl
  | number leaf =>
      obtain ⟨leaf', rfl, htext, hline⟩ := h.of_singleton
      refine ⟨.number leaf', rfl, ?_⟩
      simp only [ExprTree.expr, RawExpr.mapLine, Expr.map, Leaf.mapLine_token htext hline, hline]
  | string leaf =>
      obtain ⟨leaf', rfl, htext, hline⟩ := h.of_singleton
      refine ⟨.string leaf', rfl, ?_⟩
      simp only [ExprTree.expr, RawExpr.mapLine, Expr.map, Leaf.mapLine_token htext hline, hline]
  | true leaf =>
      obtain ⟨leaf', rfl, -, hline⟩ := h.of_singleton
      exact ⟨.true leaf', rfl, congrArg (Expr.boolean Bool.true) hline⟩
  | false leaf =>
      obtain ⟨leaf', rfl, -, hline⟩ := h.of_singleton
      exact ⟨.false leaf', rfl, congrArg (Expr.boolean Bool.false) hline⟩
  | nil leaf =>
      obtain ⟨leaf', rfl, -, hline⟩ := h.of_singleton
      exact ⟨.nil leaf', rfl, congrArg Expr.nil hline⟩
  | name leaf =>
      obtain ⟨leaf', rfl, htext, hline⟩ := h.of_singleton
      refine ⟨.name leaf', rfl, ?_⟩
      simp only [ExprTree.expr, RawExpr.mapLine, Expr.map, htext, hline]
  | call call =>
      obtain ⟨call', rfl, hrequest⟩ := exists_callTree h
      exact ⟨.call call', rfl, congrArg Expr.call hrequest⟩
  | parens opening inside closing ih =>
      obtain ⟨opening', rest, rfl, -, -, hrest⟩ := h.of_cons
      obtain ⟨first, last, rfl, hfirst, hlast⟩ := hrest.of_append
      obtain ⟨inside', rfl, hexpr⟩ := ih hfirst
      obtain ⟨closing', rfl, -, -⟩ := hlast.of_singleton
      exact ⟨.parens opening' inside' closing', rfl, hexpr⟩

theorem exists_statementTree {tree : StatementTree} {tokens : List Token}
    (h : Agree f g tokens tree.tokens) :
    ∃ tree' : StatementTree, tree'.tokens = tokens ∧
      RawStatement.mapLine f tree'.statement = RawStatement.mapLine g tree.statement := by
  cases tree with
  | assign word name sign value =>
      obtain ⟨word', rest, rfl, -, hword, hrest⟩ := h.of_cons
      obtain ⟨name', rest, rfl, hname, -, hrest⟩ := hrest.of_cons
      obtain ⟨sign', rest, rfl, -, -, hrest⟩ := hrest.of_cons
      obtain ⟨value', rfl, hvalue⟩ := exists_exprTree hrest
      refine ⟨.assign word' name' sign' value', rfl, ?_⟩
      show Statement.assign _ (RawExpr.mapLine f value'.expr) _ = _
      rw [hvalue, hname, hword]
      rfl
  | print word value =>
      obtain ⟨word', rest, rfl, -, hword, hrest⟩ := h.of_cons
      obtain ⟨value', rfl, hvalue⟩ := exists_exprTree hrest
      refine ⟨.print word' value', rfl, ?_⟩
      show Statement.print (RawExpr.mapLine f value'.expr) _ = _
      rw [hvalue, hword]
      rfl
  | «return» word value =>
      obtain ⟨word', rest, rfl, -, hword, hrest⟩ := h.of_cons
      obtain ⟨value', rfl, hvalue⟩ := exists_exprTree hrest
      refine ⟨.return word' value', rfl, ?_⟩
      show Statement.return (RawExpr.mapLine f value'.expr) _ = _
      rw [hvalue, hword]
      rfl
  | fail word value =>
      obtain ⟨word', rest, rfl, -, hword, hrest⟩ := h.of_cons
      obtain ⟨value', rfl, hvalue⟩ := exists_exprTree hrest
      refine ⟨.fail word' value', rfl, ?_⟩
      show Statement.fail (RawExpr.mapLine f value'.expr) _ = _
      rw [hvalue, hword]
      rfl
  | call call =>
      obtain ⟨call', rfl, hrequest⟩ := exists_callTree h
      exact ⟨.call call', rfl, congrArg Statement.call hrequest⟩

/-- Tokens that agree with those of a script are those of a script that agrees with it. -/
theorem exists_scriptTree {tree : ScriptTree} {tokens : List Token}
    (h : Agree f g tokens tree.tokens) :
    ∃ tree' : ScriptTree, tree'.tokens = tokens ∧
      tree'.statements.map (RawStatement.mapLine f) =
        tree.statements.map (RawStatement.mapLine g) := by
  induction tree generalizing tokens with
  | nil => exact ⟨[], h.of_nil.symm, rfl⟩
  | cons statement rest ih =>
      obtain ⟨first, others, rfl, hfirst, hothers⟩ := h.of_append
      obtain ⟨statement', rfl, hstatement⟩ := exists_statementTree hfirst
      obtain ⟨rest', rfl, hrest⟩ := ih hothers
      exact ⟨statement' :: rest', rfl, List.cons_eq_cons.mpr ⟨hstatement, hrest⟩⟩

end Agree

/-- Tokens that are those of a script mean its statements, with their literals decoded. -/
def Means (tokens : List Token) (statements : List (Statement Numeral CodePoints)) : Prop :=
  ∃ tree : ScriptTree, tree.tokens = tokens ∧
    Statement.decodeAll tree.statements = .ok statements

theorem Means.append {tokens others : List Token}
    {statements later : List (Statement Numeral CodePoints)} (h : Means tokens statements)
    (hothers : Means others later) : Means (tokens ++ others) (statements ++ later) := by
  obtain ⟨tree, rfl, hdecode⟩ := h
  obtain ⟨tree', rfl, hdecode'⟩ := hothers
  refine ⟨tree ++ tree', tree.tokens_append tree', ?_⟩
  rw [ScriptTree.statements, List.map_append]
  exact Statement.decodeAll_append hdecode hdecode'

/-- Tokens that agree mean statements that agree. -/
theorem Means.of_agree {f g : Nat → Nat} {tokens others : List Token}
    {statements : List (Statement Numeral CodePoints)} (h : Means tokens statements)
    (agree : Agree f g others tokens) :
    ∃ statements', Means others statements' ∧
      statements'.map (Statement.mapLine f) = statements.map (Statement.mapLine g) := by
  obtain ⟨tree, rfl, hdecode⟩ := h
  obtain ⟨tree', rfl, hstatements⟩ := exists_scriptTree agree
  have hmoved := congrArg Statement.decodeAll hstatements
  rw [Statement.decodeAll_mapLine, Statement.decodeAll_mapLine, hdecode] at hmoved
  rcases hdecode' : Statement.decodeAll tree'.statements with error | statements'
  · rw [hdecode'] at hmoved
    cases hmoved
  · rw [hdecode'] at hmoved
    exact ⟨statements', ⟨tree', rfl, hdecode'⟩, Except.ok.inj hmoved⟩

/-- On other lines tokens mean the same statements on these lines. -/
theorem Means.mapLine {tokens : List Token} {statements : List (Statement Numeral CodePoints)}
    (h : Means tokens statements) (f : Nat → Nat) :
    Means (tokens.map (Token.mapLine f)) (statements.map (Statement.mapLine f)) := by
  have agree : Agree id f (tokens.map (Token.mapLine f)) tokens := List.map_id _
  obtain ⟨statements', hmeans, hsame⟩ := h.of_agree agree
  have hid : Statement.mapLine id = (id : Statement Numeral CodePoints → _) :=
    funext Statement.mapLine_id
  rw [hid, List.map_id] at hsame
  rwa [← hsame]

end Grammar

end ScriptLoader.Script
