import ScriptLoader.Proofs.RoundTrip
import ScriptLoader.Proofs.Sums

/-!
Names that are bound and read back. What an identifier is depends on the place: behind `let` every
identifier is a name, but where an operand is due some are words. So a name that `let` binds reads
back as the value it was bound to, unless it is one of the three words that stand for a value of
their own.
-/

namespace ScriptLoader.Script

open Grammar Loader

/-- A line that binds a name to an expression, and one that returns what stands behind the name. -/
def bindingText (name expression : List Char) : List Char :=
  ("let".toList ++ ' ' :: (name ++ ' ' :: '=' :: ' ' :: expression)) ++
    '\n' :: ("return".toList ++ ' ' :: name)

def constant? (word : List Char) : Option Value :=
  [("true".toList, .boolean true), ("false".toList, .boolean false), ("nil".toList, .nil)].lookup
    word

/-! ### What an identifier is where an operand is due -/

/-- An operand that is one token gives the value of a word, or else the value that the name is bound
to. -/
structure ReadsAs (word : List Char) (atom : ExprTree .atom) (expr : Expr Numeral CodePoints) :
    Prop where
  decoded : atom.expr.decode = .ok expr
  runs : ∀ {executor : Executor Host} {file : Option String} {loader : Loader Host} {bound : Value},
    loader.host.value? (String.ofList word) = some bound →
      Runs executor (expr.evaluate file) loader (.ok ((constant? word).getD bound)) loader

theorem readsAs_name {word : List Char} (free : word ∉ Terminal.operandWords.map (·.1))
    (line : Nat) : ReadsAs word (.name ⟨word, line⟩) (.name (String.ofList word) line) where
  decoded := rfl
  runs := by
    intro executor file loader bound hbound
    have hconstant : constant? word = none := by
      simp only [Terminal.operandWords, List.map_cons, List.map_nil, List.mem_cons, not_or] at free
      obtain ⟨-, -, htrue, hfalse, hnil, -⟩ := free
      simp only [constant?, List.lookup_cons, beq_false_of_ne htrue, beq_false_of_ne hfalse,
        beq_false_of_ne hnil, List.lookup_nil]
    refine runs_name_iff.mpr ⟨?_, rfl⟩
    rw [hbound, hconstant]
    rfl

theorem readsAs_constant {word : List Char} {value : Value} (h : constant? word = some value)
    {atom : ExprTree .atom} {expr : Expr Numeral CodePoints} (decoded : atom.expr.decode = .ok expr)
    (evaluates : ∀ file, expr.evaluate file = .done (.ok value)) : ReadsAs word atom expr where
  decoded := decoded
  runs := by
    intro executor file loader bound _
    rw [h, evaluates]
    exact .done _ _

/-- Where an operand is due, an identifier is an operand by itself, or the word of a load. -/
theorem operand_of_identifier {word : List Char} (identifier : IsIdentifier word) (line : Nat) :
    ∃ terminal, Taken (· ∈ admitted .operand) terminal word [] ∧
      ((∀ mode : Mode, mode.after terminal = .path) ∨
        ∃ atom expr, atom.tokens = [⟨terminal, word, line⟩] ∧ ReadsAs word atom expr) := by
  by_cases free : word ∉ Terminal.operandWords.map (·.1)
  · exact ⟨.name, taken_writableName identifier free, .inr ⟨_, _, rfl, readsAs_name free line⟩⟩
  · simp only [Terminal.operandWords, List.map_cons, List.map_nil, List.mem_cons,
      List.not_mem_nil, or_false, not_not] at free
    have htaken {terminal : Terminal} (hmem : terminal ∈ Terminal.operandStarts)
        (hword : word? terminal = some word) : Taken (· ∈ admitted .operand) terminal word [] :=
      taken_operandWord hmem hword
    rcases free with rfl | rfl | rfl | rfl | rfl
    · exact ⟨.loadWord, htaken (by decide) rfl, .inl fun _ => rfl⟩
    · exact ⟨.requireWord, htaken (by decide) rfl, .inl fun _ => rfl⟩
    · exact ⟨.trueWord, htaken (by decide) rfl, .inr ⟨.true ⟨"true".toList, line⟩,
        .boolean true line, rfl, readsAs_constant rfl rfl fun _ => rfl⟩⟩
    · exact ⟨.falseWord, htaken (by decide) rfl, .inr ⟨.false ⟨"false".toList, line⟩,
        .boolean false line, rfl, readsAs_constant rfl rfl fun _ => rfl⟩⟩
    · exact ⟨.nilWord, htaken (by decide) rfl, .inr ⟨.nil ⟨"nil".toList, line⟩,
        .nil line, rfl, readsAs_constant rfl rfl fun _ => rfl⟩⟩

/-! ### The text as tokens -/

section Text

variable {name expression : List Char} {tokens : List Token}

theorem scans_letLine (identifier : IsIdentifier name)
    (scans : Scans .operand 1 expression tokens) :
    Scans .start 1 ("let".toList ++ ' ' :: (name ++ ' ' :: '=' :: ' ' :: expression))
      (⟨.letWord, "let".toList, 1⟩ :: ⟨.name, name, 1⟩ :: ⟨.equals, ['='], 1⟩ :: tokens) := by
  have space : Gap [' '] := .blank rfl .nil
  have hsign : Scans .equals 1 ([' '] ++ (['='] ++ ([' '] ++ expression)))
      (⟨.equals, ['='], 1⟩ :: tokens) :=
    .token space (.mark (by decide) rfl) (scans.behind space)
  have hname : Scans .target 1 ([' '] ++ (name ++ ([' '] ++ (['='] ++ ([' '] ++ expression)))))
      (⟨.name, name, 1⟩ :: ⟨.equals, ['='], 1⟩ :: tokens) := by
    refine .token space (.name (by decide) identifier ?_ ?_) hsign
    · rintro c ⟨⟩
      rfl
    · intro terminal hmem hword
      rw [List.mem_singleton.mp hmem] at hword
      cases hword
  have hmem : Terminal.letWord ∈ Terminal.statementStarts := by decide
  exact .token .nil (taken_statementStart (.inl rfl) hmem rfl _) hname

theorem scans_returnLine {terminal : Terminal}
    (taken : Taken (· ∈ admitted .operand) terminal name []) (line : Nat) :
    Scans .valueEnd line ("return".toList ++ ' ' :: name)
      [⟨.returnWord, "return".toList, line⟩, ⟨terminal, name, line⟩] := by
  have hoperand : Scans .operand line ([' '] ++ (name ++ [])) [⟨terminal, name, line⟩] :=
    .token (.blank rfl .nil) taken (.done (.inl .nil))
  rw [List.append_nil] at hoperand
  have hmem : Terminal.returnWord ∈ Terminal.statementStarts := by decide
  exact .token .nil (taken_statementStart (.inr rfl) hmem rfl _) hoperand

end Text

/-! ### Reading back -/

/-- The statements of the two lines, if these are a script. -/
theorem statements_of_bindingText {file : Option String} {name expression : List Char}
    {tree : ExprTree .expr} {script : Script} (identifier : IsIdentifier name)
    (scans : Scans .operand 1 expression tree.tokens)
    (parsed : parse file (bindingText name expression) = .ok script) :
    ∃ value atom operand line, tree.expr.decode = .ok value ∧ ReadsAs name atom operand ∧
      script.statements = [.assign (String.ofList name) value 1, .return operand line] := by
  obtain ⟨-, tokens, hscans, derivation, rfl, hdecode⟩ := (parse_iff_means _ _ _).mp parsed
  let letLine := "let".toList ++ ' ' :: (name ++ ' ' :: '=' :: ' ' :: expression)
  let line := 1 + letLine.count '\n' + 1
  obtain ⟨terminal, taken, hoperand⟩ := operand_of_identifier identifier line
  have hfirst := scans_letLine identifier scans
  have hmode : Mode.start.afterAll (⟨.letWord, "let".toList, 1⟩ :: ⟨.name, name, 1⟩ ::
      ⟨.equals, ['='], 1⟩ :: tree.tokens) = .valueEnd := tree.afterAll_tokens
  have hboth := hfirst.append (hmode ▸ scans_returnLine taken line)
  have htokens := congrArg Scan.tokens ((scans_iff.mp hscans).symm.trans (scans_iff.mp hboth))
  replace htokens : derivation.tokens = _ := htokens
  rcases hoperand with hpath | ⟨atom, operand, hatom, reads⟩
  · -- a script does not end behind the word of a load
    have hafter := derivation.afterAll_tokens
    rw [htokens, Mode.afterAll_append, Mode.afterAll, List.foldl_cons, List.foldl_cons,
      List.foldl_nil, hpath] at hafter
    rcases hafter with hafter | hafter <;> cases hafter
  · obtain rfl : derivation = [.assign ⟨"let".toList, 1⟩ ⟨name, 1⟩ ⟨['='], 1⟩ tree,
        .return ⟨"return".toList, line⟩ (.operand atom)] := by
      refine ScriptTree.tokens_injective (htokens.trans ?_)
      simp [ScriptTree.tokens, StatementTree.tokens, ExprTree.tokens, hatom]
    rw [ScriptTree.statements, List.map_cons, Statement.decodeAll] at hdecode
    split at hdecode
    · cases hdecode
    · rename_i assign hassign
      obtain ⟨value, hvalue, rfl⟩ := exists_of_map_eq_ok hassign
      have hreturn : Statement.decodeAll (List.map StatementTree.statement
          [.return ⟨"return".toList, line⟩ (.operand atom)]) = .ok [.return operand line] := by
        have hexpr : (ExprTree.operand atom).expr.decode = .ok operand := reads.decoded
        simp [Statement.decodeAll, StatementTree.statement, Statement.decode, hexpr, Except.map]
      rw [hreturn] at hdecode
      exact ⟨value, atom, operand, line, hvalue, reads, (Except.ok.inj hdecode).symm⟩

/-- A name that `let` binds reads back. If a line that binds an identifier to an expression and one
that returns it are accepted as a script, then the first statement of the script binds the name to
the value of the expression; and whenever it runs without a fault, with any modules and from any
state, the result of the script is the value that the name is bound to then. Three identifiers are
different: `true`, `false` and `nil` are bound as all others are, but the result is the value that
the word stands for. -/
theorem bound_name_reads_back {name expression : List Char} {tree : ExprTree .expr}
    (identifier : IsIdentifier name) (scans : Scans .operand 1 expression tree.tokens)
    {file : Option String} {script : Script}
    (parsed : parse file (bindingText name expression) = .ok script) :
    ∃ value rest, tree.expr.decode = .ok value ∧
      script.statements = .assign (String.ofList name) value 1 :: rest ∧
      ∀ (modules : Executor Host) (loader middle : Loader Host),
        Runs modules ((Statement.assign (String.ofList name) value 1).perform file) loader
          (.ok ()) middle →
        ∃ bound, middle.host.value? (String.ofList name) = some bound ∧
          Runs modules (run script) loader (.ok ((constant? name).getD bound)) middle := by
  obtain ⟨value, atom, operand, line, hvalue, reads, hstatements⟩ :=
    statements_of_bindingText identifier scans parsed
  refine ⟨value, _, hvalue, hstatements, fun modules loader middle performed => ?_⟩
  obtain ⟨bound, hbound⟩ : ∃ bound, middle.host.value? (String.ofList name) = some bound := by
    obtain ⟨bound, last, -, rfl⟩ := runs_assign_iff.mp performed
    exact ⟨bound, Host.value?_define _ _ _⟩
  refine ⟨bound, hbound, ?_⟩
  rw [run, hstatements, file_of_parse parsed]
  exact performed.bind rfl (reads.runs hbound)

def commentedSum : List Char := "1 + 2 ; three".toList

def commentedTree : ExprTree .expr :=
  .add (.operand (.number ⟨['1'], 1⟩)) ⟨['+'], 1⟩ (.number ⟨['2'], 1⟩)

/-- The word of a statement is a name like others, and the comment ends before it is read back. -/
theorem bound_name_reads_back_commented :
    IsIdentifier "print".toList ∧ Scans .operand 1 commentedSum commentedTree.tokens ∧
      ∃ script after, parse none (bindingText "print".toList commentedSum) = .ok script ∧
        Runs executor (run script) filelessLoader (.ok (.number (.int 3))) after := by
  have hidentifier : IsIdentifier "print".toList := isIdentifier_word (rfl : word? .printWord = _)
  have hscans : Scans .operand 1 commentedSum commentedTree.tokens :=
    scans_iff.mpr (by decide +kernel)
  have hparse : parse none (bindingText "print".toList commentedSum) = .ok ⟨none,
      [.assign "print" (.add (.number (.int 1) 1) (.number (.int 2) 1)) 1,
        .return (.name "print" 2) 2]⟩ := by
    with_unfolding_all rfl
  obtain ⟨value, rest, hvalue, -, hruns⟩ := bound_name_reads_back hidentifier hscans hparse
  have hsum : commentedTree.expr.decode =
      .ok (.add (.number (.int 1) 1) (.number (.int 2) 1)) := by with_unfolding_all rfl
  cases hsum.symm.trans hvalue
  have hthree : Runs executor (Expr.evaluate none (.add (.number (.int 1) 1) (.number (.int 2) 1)))
      filelessLoader (.ok (.number (.int 3))) filelessLoader := .done _ _
  obtain ⟨given, hgiven, hrun⟩ := hruns executor filelessLoader _
    (runs_assign_iff.mpr ⟨_, _, hthree, rfl⟩)
  cases (Host.value?_define _ _ _).symm.trans hgiven
  exact ⟨hidentifier, hscans, _, _, hparse, hrun⟩

/-- So a name can be bound without a fault, and its value is not what is read back. -/
theorem bound_word_reads_back_itself :
    ¬∀ (name expression : List Char) (tree : ExprTree .expr) (script : Script)
      (loader middle : Loader Host) (bound : Value),
      IsIdentifier name → Scans .operand 1 expression tree.tokens →
      parse none (bindingText name expression) = .ok script →
      (∀ statement ∈ script.statements.head?,
        Runs executor (statement.perform none) loader (.ok ()) middle) →
      middle.host.value? (String.ofList name) = some bound →
      Runs executor (run script) loader (.ok bound) middle := by
  intro h
  have hparse : parse none (bindingText "true".toList ['5']) = .ok ⟨none,
      [.assign "true" (.number (.int 5) 1) 1, .return (.boolean true 2) 2]⟩ := by
    with_unfolding_all rfl
  have hvalue : Runs executor (Expr.evaluate none (.number (.int 5) 1)) filelessLoader
      (.ok (.number (.int 5))) filelessLoader := .done _ _
  have performed : Runs executor ((Statement.assign "true" (.number (.int 5) 1) 1).perform none)
      filelessLoader (.ok ()) { filelessLoader with
        host := filelessLoader.host.define "true" (.number (.int 5)) } :=
    runs_assign_iff.mpr ⟨_, _, hvalue, rfl⟩
  have hfive := h "true".toList ['5'] (.operand (.number ⟨['5'], 1⟩)) _ filelessLoader _ _
    (isIdentifier_word (rfl : word? .trueWord = _)) (scans_iff.mpr (by decide +kernel)) hparse
    (by rintro statement ⟨⟩; exact performed) (Host.value?_define _ _ _)
  have htrue : Runs executor (run ⟨none,
      [.assign "true" (.number (.int 5) 1) 1, .return (.boolean true 2) 2]⟩) filelessLoader
      (.ok (.boolean true)) _ := performed.bind rfl (.done _ _)
  cases (hfive.unique htrue).1

end ScriptLoader.Script
