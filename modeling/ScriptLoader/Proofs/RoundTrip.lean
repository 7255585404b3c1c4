import ScriptLoader.Proofs.Rendering
import ScriptLoader.Proofs.Scanning

/-!
Written statements are read back. The tokens of a statement, as it is written, are derived by a
tree that stands for the statement; each of them is found where it stands, because a space follows
it; and its literals are decoded to those that were written.
-/

namespace ScriptLoader.Script

namespace Expr

variable {ν ν' τ τ' : Type}

@[simp] theorem mapLine_map (number : ν → ν') (text : τ → τ') (line f : Nat → Nat)
    (expr : Expr ν τ) :
    (expr.map number text line).mapLine f = expr.map number text (f ∘ line) := by
  induction expr with
  | add left right ihleft ihright =>
      show Expr.add ((left.map number text line).mapLine f)
        ((right.map number text line).mapLine f) = _
      rw [ihleft, ihright]
      rfl
  | _ => rfl

end Expr

@[simp] theorem Statement.mapLine_map {ν ν' τ τ' : Type} (number : ν → ν') (text : τ → τ')
    (line f : Nat → Nat) (statement : Statement ν τ) :
    (statement.map number text line).mapLine f = statement.map number text (f ∘ line) := by
  have hvalue (value : Expr ν τ) :
      (value.map number text line).map id id f = value.map number text (f ∘ line) :=
    value.mapLine_map number text line f
  cases statement with
  | call request => rfl
  | _ => simp only [map, mapLine, hvalue, Function.comp_apply]

namespace Grammar

/-! ### Expressions -/

/-- A tree with these texts, each of them a token where it stands, that stands for an expression. -/
structure Renders {rank : Rank} (tree : ExprTree rank) (words : List (List Char))
    (expr : Expr Int String) : Prop where
  words : tree.tokens.map (·.text) = words
  separable : Separable .operand tree.tokens
  decoded : tree.expr.decode = .ok (expr.map .int CodePoints.ofString fun _ => 1)

/-- A word that is an operand or begins one is found where an operand is due. -/
theorem taken_operandWord {terminal : Terminal} {text : List Char}
    (hmem : terminal ∈ Terminal.operandStarts) (hword : word? terminal = some text) :
    Taken (· ∈ admitted .operand) terminal text [] :=
  .word hmem hword (by decide : Terminal.name ∈ Terminal.operandStarts) nofun

theorem separable_operandWord {terminal : Terminal} {text : List Char}
    (hmem : terminal ∈ Terminal.operandStarts) (hword : word? terminal = some text) :
    Separable .operand [⟨terminal, text, 1⟩] :=
  .cons (taken_operandWord hmem hword) .nil

theorem taken_figures (n : Int) :
    Taken (· ∈ admitted .operand) .number (Literal.figures n) [] := by
  have may : Terminal.number ∈ Terminal.operandStarts := by decide
  refine .number may (isNumber_figures n) fun longer _ hfront => ?_
  rw [List.append_nil] at hfront
  exact hfront.length_le

theorem taken_writableName {text : List Char} (h : IsIdentifier text)
    (hfree : text ∉ Terminal.operandWords.map (·.1)) :
    Taken (· ∈ admitted .operand) .name text [] := by
  refine .name (by decide : Terminal.name ∈ Terminal.operandStarts) h nofun ?_
  intro terminal hmem hword
  have hlookup := operandWords_lookup.mpr ⟨hmem, hword⟩
  obtain ⟨before, after, heq, -⟩ := List.lookup_eq_some_iff.mp hlookup
  exact hfree (List.mem_map.mpr ⟨(text, terminal), by simp [heq], rfl⟩)

section Calls

variable (request : Call String)

def callTree : CallTree :=
  ⟨request.safe, ⟨if request.safe then "require".toList else "load".toList, 1⟩,
    ⟨Literal.quoted request.path, 1⟩⟩

@[simp] theorem callTree_words : (callTree request).tokens.map (·.text) = request.words := rfl

theorem word?_callTree :
    word? (callWord request.safe) = some (callTree request).word.text := by
  obtain ⟨path, _ | _, line⟩ := request <;> rfl

theorem callTree_separable {mode : Mode}
    (taken : Taken (· ∈ admitted mode) (callWord request.safe) (callTree request).word.text []) :
    Separable mode (callTree request).tokens := by
  have hpath : mode.after (callTree request).word.token.terminal = .path := by
    obtain ⟨path, _ | _, line⟩ := request <;> rfl
  refine .cons taken ?_
  rw [hpath]
  exact .cons (.string (List.mem_singleton.mpr rfl) (isString_quoted request.path)) .nil

@[simp] theorem callTree_decoded :
    (callTree request).request.decode = .ok (request.map CodePoints.ofString fun _ => 1) := by
  simp only [CallTree.request, callTree, Leaf.token, Call.decode, Literal.string,
    decodeString?_quoted]
  rfl

end Calls

/-- Every operand that is no sum is written as a tree of its own. -/
theorem exists_renders_atom {expr : Expr Int String} (hsum : expr.isSum = false)
    (h : expr.Writable) : ∃ tree : ExprTree .atom, Renders tree expr.words expr := by
  cases expr with
  | number value line =>
      refine ⟨.number ⟨Literal.figures value, 1⟩, rfl, .cons (taken_figures value) .nil, ?_⟩
      have hdecode := decodeNumber_figures h
      simp only [ExprTree.expr, Leaf.token, Expr.decode, Literal.number, hdecode]
      rfl
  | text value line =>
      refine ⟨.string ⟨Literal.quoted value, 1⟩, rfl, .cons ?_ .nil, ?_⟩
      · exact .string (by decide : Terminal.string ∈ Terminal.operandStarts) (isString_quoted value)
      · simp [ExprTree.expr, Leaf.token, Expr.decode, Literal.string]
        rfl
  | boolean value line =>
      cases value with
      | false => exact ⟨.false ⟨"false".toList, 1⟩, rfl, separable_operandWord (by decide) rfl, rfl⟩
      | true => exact ⟨.true ⟨"true".toList, 1⟩, rfl, separable_operandWord (by decide) rfl, rfl⟩
  | nil line => exact ⟨.nil ⟨"nil".toList, 1⟩, rfl, separable_operandWord (by decide) rfl, rfl⟩
  | name identifier line =>
      obtain ⟨hidentifier, hfree⟩ := h
      refine ⟨.name ⟨identifier.toList, 1⟩, rfl,
        .cons (taken_writableName hidentifier hfree) .nil, ?_⟩
      simp only [ExprTree.expr, String.ofList_toList]
      rfl
  | call request =>
      refine ⟨.call (callTree request), rfl, callTree_separable request ?_, ?_⟩
      · exact taken_operandWord (by cases request.safe <;> decide) (word?_callTree request)
      · simp [ExprTree.expr, Expr.decode]
        rfl
  | add left right => cases hsum

theorem Renders.add {left : ExprTree .expr} {right : ExprTree .atom}
    {leftWords rightWords : List (List Char)} {l r : Expr Int String}
    (hl : Renders left leftWords l) (hr : Renders right rightWords r) :
    Renders (.add left ⟨['+'], 1⟩ right) (leftWords ++ ['+'] :: rightWords) (.add l r) where
  words := by
    simp [ExprTree.tokens, hl.words, hr.words]
  separable := by
    apply hl.separable.append
    rw [left.afterAll_tokens]
    refine .cons (.mark (by decide : Terminal.plus ∈ admitted .valueEnd) rfl) hr.separable
  decoded := by
    simp only [ExprTree.expr, Expr.decode, hl.decoded, hr.decoded]
    rfl

theorem Renders.parens {inside : ExprTree .expr} {words : List (List Char)}
    {expr : Expr Int String} (h : Renders inside words expr) :
    Renders (.parens ⟨['('], 1⟩ inside ⟨[')'], 1⟩) (['('] :: (words ++ [[')']])) expr where
  words := by
    rw [ExprTree.tokens, List.map_cons, List.map_append, h.words]
    rfl
  separable := by
    refine .cons (.mark (by decide : Terminal.opening ∈ admitted .operand) rfl) ?_
    apply h.separable.append
    rw [inside.afterAll_tokens]
    exact .cons (.mark (by decide : Terminal.closing ∈ admitted .valueEnd) rfl) .nil
  decoded := h.decoded

theorem Renders.operand {atom : ExprTree .atom} {words : List (List Char)} {expr : Expr Int String}
    (h : Renders atom words expr) : Renders (.operand atom) words expr :=
  ⟨h.words, h.separable, h.decoded⟩

theorem exists_renders {expr : Expr Int String} (h : expr.Writable) :
    ∃ tree : ExprTree .expr, Renders tree expr.words expr := by
  have hatom {other : Expr Int String} (hsum : other.isSum = false) (hother : other.Writable) :
      ∃ tree : ExprTree .expr, Renders tree other.words other := by
    obtain ⟨tree, htree⟩ := exists_renders_atom hsum hother
    exact ⟨_, htree.operand⟩
  induction expr with
  | add left right ihleft ihright =>
      obtain ⟨left', hleft⟩ := ihleft h.1
      -- the right operand is an atom: by itself, or in parentheses
      rcases hsum : right.isSum with _ | _
      · obtain ⟨right', hright⟩ := exists_renders_atom hsum h.2
        rw [Expr.words, hsum]
        exact ⟨_, hleft.add hright⟩
      · obtain ⟨right', hright⟩ := ihright h.2
        rw [Expr.words, hsum]
        exact ⟨_, hleft.add hright.parens⟩
  | _ => exact hatom rfl h

/-! ### Statements -/

structure RendersStatement (tree : StatementTree) (statement : Statement Int String) : Prop where
  words : tree.tokens.map (·.text) = statement.words
  separable : ∀ mode, mode = .start ∨ mode = .valueEnd → Separable mode tree.tokens
  decoded : tree.statement.decode = .ok (statement.map .int CodePoints.ofString fun _ => 1)

/-- A word that begins a statement, and a value behind it. -/
theorem separable_wordAndValue {terminal : Terminal} {text : List Char} {tokens : List Token}
    (hmem : terminal ∈ Terminal.statementStarts) (hword : word? terminal = some text)
    (hafter : ∀ mode : Mode, mode.after terminal = .operand) (h : Separable .operand tokens)
    (mode : Mode) (hmode : mode = .start ∨ mode = .valueEnd) :
    Separable mode (⟨terminal, text, 1⟩ :: tokens) := by
  refine .cons (taken_statementStart hmode hmem hword _) ?_
  rwa [hafter]

theorem exists_rendersStatement {statement : Statement Int String} (h : statement.Writable) :
    ∃ tree : StatementTree, RendersStatement tree statement := by
  cases statement with
  | assign target value line =>
      obtain ⟨hidentifier, hvalue⟩ := h
      obtain ⟨tree, htree⟩ := exists_renders hvalue
      refine ⟨.assign ⟨"let".toList, 1⟩ ⟨target.toList, 1⟩ ⟨['='], 1⟩ tree,
        congrArg (_ :: _ :: _ :: ·) htree.words, fun mode hmode => ?_, ?_⟩
      · refine .cons (taken_statementStart hmode (by decide) rfl _) ?_
        -- behind `let` no word is looked for, so every identifier is a name
        refine .cons (.name (List.mem_singleton.mpr rfl) hidentifier nofun ?_) ?_
        · intro terminal hmem hword
          rw [List.mem_singleton.mp hmem] at hword
          cases hword
        · exact .cons (.mark (List.mem_singleton.mpr rfl) rfl) htree.separable
      · simp only [StatementTree.statement, Statement.decode, htree.decoded, String.ofList_toList]
        rfl
  | print value line =>
      obtain ⟨tree, htree⟩ := exists_renders h
      refine ⟨.print ⟨"print".toList, 1⟩ tree, congrArg (_ :: ·) htree.words,
        separable_wordAndValue (by decide) rfl (fun _ => rfl) htree.separable, ?_⟩
      simp only [StatementTree.statement, Statement.decode, htree.decoded]
      rfl
  | «return» value line =>
      obtain ⟨tree, htree⟩ := exists_renders h
      refine ⟨.return ⟨"return".toList, 1⟩ tree, congrArg (_ :: ·) htree.words,
        separable_wordAndValue (by decide) rfl (fun _ => rfl) htree.separable, ?_⟩
      simp only [StatementTree.statement, Statement.decode, htree.decoded]
      rfl
  | fail value line =>
      obtain ⟨tree, htree⟩ := exists_renders h
      refine ⟨.fail ⟨"fail".toList, 1⟩ tree, congrArg (_ :: ·) htree.words,
        separable_wordAndValue (by decide) rfl (fun _ => rfl) htree.separable, ?_⟩
      simp only [StatementTree.statement, Statement.decode, htree.decoded]
      rfl
  | call request =>
      refine ⟨.call (callTree request), callTree_words request, fun mode hmode => ?_, ?_⟩
      · apply callTree_separable
        exact taken_statementStart hmode (by cases request.safe <;> decide)
          (word?_callTree request) _
      · simp [StatementTree.statement, Statement.decode]
        rfl

theorem exists_rendersScript {statements : List (Statement Int String)}
    (h : ∀ statement ∈ statements, statement.Writable) :
    ∃ tree : ScriptTree,
      tree.tokens.map (·.text) = statements.flatMap Statement.words ∧
      (∀ mode, mode = .start ∨ mode = .valueEnd → Separable mode tree.tokens) ∧
      Statement.decodeAll tree.statements =
        .ok (statements.map (Statement.map .int CodePoints.ofString fun _ => 1)) := by
  induction statements with
  | nil => exact ⟨[], rfl, fun _ _ => .nil, rfl⟩
  | cons statement rest ih =>
      obtain ⟨first, hfirst⟩ := exists_rendersStatement (h statement List.mem_cons_self)
      obtain ⟨others, hwords, hseparable, hdecoded⟩ :=
        ih fun other hother => h other (List.mem_cons_of_mem _ hother)
      refine ⟨first :: others, ?_, fun mode hmode => ?_, ?_⟩
      · rw [ScriptTree.tokens, List.flatMap_cons, List.map_append, hfirst.words]
        exact congrArg (statement.words ++ ·) hwords
      · apply (hfirst.separable mode hmode).append
        rw [first.afterAll_tokens]
        exact hseparable .valueEnd (.inr rfl)
      · rw [ScriptTree.statements] at hdecoded ⊢
        simp only [List.map_cons, Statement.decodeAll, hfirst.decoded, hdecoded]
        rfl

end Grammar

open Grammar

/-- Statements that are written as a text are what the text is parsed to, all of them on its one
line. -/
theorem parse_source {file : Option String} {statements : List (Statement Int String)}
    (h : ∀ statement ∈ statements, statement.Writable) :
    parse file (source statements) =
      .ok ⟨file, statements.map (Statement.map .int CodePoints.ofString fun _ => 1)⟩ := by
  obtain ⟨tree, hwords, hseparable, hdecoded⟩ := exists_rendersScript h
  have hscans := (hseparable .start (.inl rfl)).scans_intercalate 1
  rw [hwords] at hscans
  have hmeans : Means tree.tokens _ := ⟨tree, rfl, hdecoded⟩
  have hline := hmeans.mapLine fun _ => 1
  rw [List.map_map] at hline
  have hsame : (Statement.mapLine fun _ => 1) ∘
      Statement.map Numeral.int CodePoints.ofString (fun _ => 1) =
        Statement.map Numeral.int CodePoints.ofString fun _ => 1 :=
    funext fun statement => statement.mapLine_map _ _ _ _
  rw [hsame] at hline
  exact (parse_iff_means file _ _).mpr ⟨rfl, _, hscans, hline⟩

/-- A word as a target, a negative number, escapes, sums on both sides, and calls that follow
values. -/
def entangled : List (Statement Int String) :=
  [.assign "let" (.add (.add (.number (-1) 7) (.text "; \x22\\\n\r\x00" 7))
      (.add (.name "lets" 7) (.call ⟨"a b", true, 7⟩))) 7,
    .call ⟨"c", false, 8⟩, .return (.boolean true 9) 9]

theorem parse_source_entangled :
    (∀ statement ∈ entangled, statement.Writable) ∧
      parse none
          ("let let = -1 + \"; \\\"\\\\\\n\\r\\x00\" + ( lets + require \"a b\" ) " ++
            "load \"c\" return true").toList =
        .ok ⟨none, [.assign "let"
            (.add (.add (.number (.int (-1)) 1) (.text "; \x22\\\n\r\x00" 1))
              (.add (.name "lets" 1) (.call ⟨"a b", true, 1⟩))) 1,
          .call ⟨"c", false, 1⟩, .return (.boolean true 1) 1]⟩ := by
  have hwritable : ∀ statement ∈ entangled, statement.Writable := by
    have hlet : IsIdentifier "let".toList := ⟨'l', "et".toList, rfl, rfl, List.all_eq_true.mp rfl⟩
    have hlets : IsIdentifier "lets".toList :=
      ⟨'l', "ets".toList, rfl, rfl, List.all_eq_true.mp rfl⟩
    have hnumber : (Nat.toDigits 10 (-1 : Int).natAbs).length ≤ Number.digitLimit := by decide
    simp only [entangled, List.forall_mem_cons]
    exact ⟨⟨hlet, ⟨hnumber, trivial⟩, ⟨hlets, by decide⟩, trivial⟩, trivial, trivial, nofun⟩
  exact ⟨hwritable, parse_source hwritable⟩

end ScriptLoader.Script
