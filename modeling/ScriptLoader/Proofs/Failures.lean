import ScriptLoader.Proofs.Evaluation
import ScriptLoader.Proofs.Faults

/-!
How a script fails. Whatever it is run with, its fault is that of a load it asks for, or it names
the file of the script and the line of one of its nodes. There are three exceptions: an integer that
no double comes near cannot be added to a double, one with too many digits cannot be written, and a
text with a surrogate cannot be printed. They end the script with a fault from outside that tells
neither the file nor the line.
-/

namespace ScriptLoader

namespace Script

open Loader

/-! ### The nodes of a script -/

section Nodes

variable {ν τ : Type}

/-- The expressions in an expression, itself first, the others from left to right. -/
def Expr.nodes : Expr ν τ → List (Expr ν τ)
  | .add left right => .add left right :: (left.nodes ++ right.nodes)
  | expr => [expr]

theorem Expr.self_mem_nodes (expr : Expr ν τ) : expr ∈ expr.nodes := by
  cases expr <;> exact List.mem_cons_self

/-- The expressions in a statement. One that only loads is itself a node like those in
expressions. -/
def Statement.nodes : Statement ν τ → List (Expr ν τ)
  | .assign _ value _ | .print value _ | .return value _ | .fail value _ => value.nodes
  | .call request => [.call request]

end Nodes

def nodes (script : Script) : List (Expr Numeral CodePoints) :=
  script.statements.flatMap Statement.nodes

def lines (script : Script) : List Nat :=
  script.statements.flatMap fun statement => statement.line :: statement.nodes.map Expr.line

theorem nodes_subset {script : Script} {statement : Statement Numeral CodePoints}
    (h : statement ∈ script.statements) : statement.nodes ⊆ script.nodes :=
  fun _ hnode => List.mem_flatMap.mpr ⟨statement, h, hnode⟩

theorem line_mem_lines_of_statement {script : Script} {statement : Statement Numeral CodePoints}
    (h : statement ∈ script.statements) : statement.line ∈ script.lines :=
  List.mem_flatMap.mpr ⟨statement, h, List.mem_cons_self⟩

theorem line_mem_lines {script : Script} {node : Expr Numeral CodePoints}
    (h : node ∈ script.nodes) : node.line ∈ script.lines := by
  obtain ⟨statement, hstatement, hnode⟩ := List.mem_flatMap.mp h
  exact List.mem_flatMap.mpr
    ⟨statement, hstatement, List.mem_cons_of_mem _ (List.mem_map_of_mem hnode)⟩

/-! ### Numbers that are too large -/

namespace Numeral

/-- One of the numbers is a double, and the other one an integer that lies beyond all doubles. -/
def Clash : Numeral → Numeral → Prop
  | .int n, .float _ | .float _, .int n => Number.ofInt? n = none
  | _, _ => False

theorem add_eq_error_iff {m n : Numeral} {error : TooLarge} :
    m.add n = .error error ↔ m.Clash n ∧ error = .toConvert := by
  cases m with
  | int m =>
      cases n with
      | int n => simp [add, Clash]
      | float y => cases h : Number.ofInt? m <;> simp [add, Clash, h, eq_comm]
  | float x =>
      cases n with
      | int n => cases h : Number.ofInt? n <;> simp [add, Clash, h, eq_comm]
      | float y => simp [add, Clash]

end Numeral

/-- An addition fails because the types do not fit, or because two numbers do not. -/
theorem Value.add_eq_error {site : Site} {a b : Value} {fault : Fault}
    (h : a.add site b = .error fault) :
    fault = .script site (.operandMismatch a.typeName b.typeName) ∨
      ∃ m n : Numeral, a = .number m ∧ b = .number n ∧ m.Clash n ∧
        fault = TooLarge.toConvert.fault := by
  unfold Value.add at h
  split at h
  · rename_i m n
    rcases hsum : m.add n with error | sum
    · obtain ⟨clash, rfl⟩ := Numeral.add_eq_error_iff.mp hsum
      rw [hsum] at h
      cases h
      exact .inr ⟨m, n, rfl, rfl, clash, rfl⟩
    · rw [hsum] at h
      cases h
  · cases h
  · cases h
    exact .inl rfl

theorem Value.add_of_clash {m n : Numeral} (h : m.Clash n) (site : Site) :
    (Value.number m).add site (.number n) = .error TooLarge.toConvert.fault := by
  rw [add, Numeral.add_eq_error_iff.mpr ⟨h, rfl⟩]
  rfl

/-! ### Failures and where they come from -/

section Failures

variable {executor : Executor Host} {script : Script} {program : Program Host Value}
  {loader middle after : Loader Host} {fault : Fault} {α β : Type}

/-- A program that is part of a script ends with a fault from outside: the operands of a sum in the
script come to numbers that cannot be added, or the value of one of its `print` and `fail`
statements comes to an integer that cannot be written, or that of a `print` to a text that cannot be
put out. -/
inductive FailsOutside (executor : Executor Host) (script : Script) (program : Program Host α)
    (loader after : Loader Host) : Fault → Prop
  | addition {left right : Expr Numeral CodePoints} {m n : Numeral} {now middle : Loader Host}
      (node : .add left right ∈ script.nodes)
      (due : ComesTo executor program loader ((Expr.add left right).evaluate script.file) now)
      (first : Runs executor (left.evaluate script.file) now (.ok (.number m)) middle)
      (second : Runs executor (right.evaluate script.file) middle (.ok (.number n)) after)
      (clash : m.Clash n) :
      FailsOutside executor script program loader after TooLarge.toConvert.fault
  | writing {statement : Statement Numeral CodePoints} {value : Expr Numeral CodePoints}
      {line : Nat} {n : Int} {now : Loader Host} (mem : statement ∈ script.statements)
      (writes : statement = .print value line ∨ statement = .fail value line)
      (due : ComesTo executor program loader (statement.perform script.file) now)
      (given : Runs executor (value.evaluate script.file) now (.ok (.number (.int n))) after)
      (long : Number.integerText? n = none) :
      FailsOutside executor script program loader after TooLarge.toWrite.fault
  | printing {value : Expr Numeral CodePoints} {line : Nat} {text : CodePoints}
      {failure : Unwritable} {now : Loader Host} (mem : .print value line ∈ script.statements)
      (due : ComesTo executor program loader ((Statement.print value line).perform script.file) now)
      (given : Runs executor (value.evaluate script.file) now (.ok (.text text)) after)
      (surrogate : text.write = .error failure) :
      FailsOutside executor script program loader after (unwritable failure)

inductive Fails (executor : Executor Host) (script : Script) (program : Program Host α)
    (loader after : Loader Host) : Fault → Prop
  /-- A call in the script ended with it. -/
  | called {request : Call CodePoints} {now : Loader Host} {fault : Fault}
      (node : .call request ∈ script.nodes)
      (due : ComesTo executor program loader
        (Program.call request.safe request.path.fileName) now)
      (ended : Runs executor (.call request.safe request.path.fileName) now (.error fault) after) :
      Fails executor script program loader after fault
  /-- It names the script and the line of one of its nodes. -/
  | located {line : Nat} {report : Report} (mem : line ∈ script.lines) :
      Fails executor script program loader after (.script ⟨script.file, some line⟩ report)
  | outside {fault : Fault} (h : FailsOutside executor script program loader after fault) :
      Fails executor script program loader after fault

/-- A failure of a part is one of the whole, if the parts of the one are due in the other. -/
theorem Fails.mono {part : Program Host α} {whole : Program Host β} {now : Loader Host}
    (within : ∀ {γ : Type} {inner : Program Host γ} {moment : Loader Host},
      ComesTo executor part now inner moment → ComesTo executor whole loader inner moment)
    (h : Fails executor script part now after fault) :
    Fails executor script whole loader after fault := by
  cases h with
  | called node due ended => exact .called node (within due) ended
  | located mem => exact .located mem
  | outside h =>
      cases h with
      | addition node due first second clash =>
          exact .outside (.addition node (within due) first second clash)
      | writing mem writes due given long =>
          exact .outside (.writing mem writes (within due) given long)
      | printing mem due given surrogate =>
          exact .outside (.printing mem (within due) given surrogate)

theorem Fails.bind_left {part : Program Host α} (h : Fails executor script part loader after fault)
    (next : α → Program Host β) : Fails executor script (part.bind next) loader after fault :=
  h.mono fun due => due.bind_left next

theorem Fails.bind_right {first : Program Host α} {next : α → Program Host β} {a : α}
    (runs : Runs executor first loader (.ok a) middle)
    (h : Fails executor script (next a) middle after fault) :
    Fails executor script (first.bind next) loader after fault :=
  h.mono fun due => .bind_right runs due

/-- The ways in which a statement fails that writes a value: in the expression, because the value is
too long, or in what it does with the text. -/
theorem runs_shown_error_iff {value : Expr Numeral CodePoints} {file : Option String}
    {next : CodePoints → Program Host β} :
    Runs executor ((value.evaluate file).bind fun v => (Program.done v.shown).bind next) loader
      (.error fault) after ↔
    Runs executor (value.evaluate file) loader (.error fault) after ∨
    (∃ n, Runs executor (value.evaluate file) loader (.ok (.number (.int n))) after ∧
      Number.integerText? n = none ∧ fault = TooLarge.toWrite.fault) ∨
    ∃ v text middle, Runs executor (value.evaluate file) loader (.ok v) middle ∧
      v.shown = .ok text ∧ Runs executor (next text) middle (.error fault) after := by
  rw [runs_bind_iff]
  constructor
  · rintro (⟨v, middle, given, written⟩ | ⟨_, failed, ⟨⟩⟩)
    · obtain ⟨text, last, shown, rest⟩ | ⟨_, failed, ⟨⟩⟩ := runs_bind_iff.mp written
      · obtain ⟨hshown, rfl⟩ := runs_done_iff.mp shown
        exact .inr (.inr ⟨v, text, last, given, hshown.symm, rest⟩)
      · obtain ⟨hshown, rfl⟩ := runs_done_iff.mp failed
        obtain ⟨n, rfl, long, rfl⟩ := Value.shown_eq_error hshown.symm
        exact .inr (.inl ⟨n, given, long, rfl⟩)
    · exact .inl failed
  · rintro (failed | ⟨n, given, long, rfl⟩ | ⟨v, text, middle, given, hshown, rest⟩)
    · exact .inr ⟨fault, failed, rfl⟩
    · refine .inl ⟨_, after, given, ?_⟩
      rw [Value.shown_of_long long]
      exact .done _ _
    · refine .inl ⟨v, middle, given, ?_⟩
      rw [hshown]
      exact rest

/-- A text that cannot be written ends its `print`, and nothing else does. -/
theorem runs_printed_error_iff {text : CodePoints} {change : String → Host → Host} :
    Runs executor ((Program.done (outputLine text)).bind fun line => .modifyHost (change line))
      loader (.error fault) after ↔
    (∃ failure, text.write = .error failure ∧ fault = unwritable failure) ∧ after = loader := by
  rw [runs_bind_iff]
  constructor
  · rintro (⟨line, middle, -, printed⟩ | ⟨_, failed, ⟨⟩⟩)
    · simp at printed
    · obtain ⟨houtput, rfl⟩ := runs_done_iff.mp failed
      exact ⟨outputLine_eq_error_iff.mp houtput.symm, rfl⟩
  · rintro ⟨hfailure, rfl⟩
    rw [outputLine_eq_error_iff.mpr hfailure]
    exact .inr ⟨fault, .done _ _, rfl⟩

/-- What is unfit for a sum or for the output ends the program with its fault. -/
theorem FailsOutside.runs (h : FailsOutside executor script program loader after fault) :
    Runs executor program loader (.error fault) after := by
  cases h with
  | addition node due first second clash =>
      exact due.runs_error (runs_add_error_iff.mpr
        (.inr ⟨_, _, first, .inr ⟨_, second, Value.add_of_clash clash _⟩⟩))
  | writing mem writes due given long =>
      refine due.runs_error ?_
      rcases writes with rfl | rfl
      · exact runs_shown_error_iff.mpr (.inr (.inl ⟨_, given, long, rfl⟩))
      · exact runs_shown_error_iff.mpr (.inr (.inl ⟨_, given, long, rfl⟩))
  | printing mem due given surrogate =>
      refine due.runs_error (runs_shown_error_iff.mpr (.inr (.inr ⟨_, _, _, given, rfl, ?_⟩)))
      exact runs_printed_error_iff.mpr ⟨⟨_, surrogate, rfl⟩, rfl⟩

/-! ### Every failure has a place -/

theorem Expr.fails {expr : Expr Numeral CodePoints} (nodes : expr.nodes ⊆ script.nodes)
    (runs : Runs executor (expr.evaluate script.file) loader (.error fault) after) :
    Fails executor script (expr.evaluate script.file) loader after fault := by
  have hself := nodes expr.self_mem_nodes
  induction expr generalizing loader after with
  | name identifier line =>
      obtain ⟨houtcome, rfl⟩ := runs_name_iff.mp runs
      split at houtcome
      · cases houtcome
      · cases houtcome
        exact .located (line_mem_lines hself)
  | call request => exact .called hself (comesTo_refl _ _) runs
  | add left right ihleft ihright =>
      obtain ⟨hleft, hright⟩ : left.nodes ⊆ script.nodes ∧ right.nodes ⊆ script.nodes :=
        List.append_subset.mp (List.cons_subset.mp nodes).2
      obtain failed | ⟨a, middle, first, failed | ⟨b, second, sum⟩⟩ := runs_add_error_iff.mp runs
      · exact (ihleft hleft failed (hleft left.self_mem_nodes)).bind_left _
      · exact ((ihright hright failed (hright right.self_mem_nodes)).bind_left _).bind_right first
      · obtain rfl | ⟨m, n, rfl, rfl, clash, rfl⟩ := Value.add_eq_error sum
        · -- a sum is on the line of its left operand
          exact .located (line_mem_lines (hleft left.self_mem_nodes))
        · exact .outside (.addition hself (comesTo_refl _ _) first second clash)
  | number _ _ | text _ _ | boolean _ _ | nil _ => cases runs

theorem Statement.fails {statement : Statement Numeral CodePoints}
    (mem : statement ∈ script.statements)
    (runs : Runs executor (statement.perform script.file) loader (.error fault) after) :
    Fails executor script (statement.perform script.file) loader after fault := by
  have hnodes := nodes_subset mem
  cases statement with
  | assign target value line =>
      obtain ⟨v, middle, -, rest⟩ | ⟨_, failed, ⟨⟩⟩ := runs.of_bind
      · simp at rest
      · exact (value.fails hnodes failed).bind_left _
  | print value line =>
      obtain failed | ⟨n, given, long, rfl⟩ | ⟨v, text, middle, given, shown, rest⟩ :=
        runs_shown_error_iff.mp runs
      · exact (value.fails hnodes failed).bind_left _
      · exact .outside (.writing mem (.inl rfl) (comesTo_refl _ _) given long)
      · obtain ⟨⟨failure, surrogate, rfl⟩, rfl⟩ := runs_printed_error_iff.mp rest
        obtain rfl | ⟨line, rfl⟩ := Value.eq_text_or_string_of_shown shown
        · exact .outside (.printing mem (comesTo_refl _ _) given surrogate)
        · simp at surrogate
  | «return» value line => cases runs
  | fail value line =>
      obtain failed | ⟨n, given, long, rfl⟩ | ⟨v, text, middle, -, -, rest⟩ :=
        runs_shown_error_iff.mp runs
      · exact (value.fails hnodes failed).bind_left _
      · exact .outside (.writing mem (.inr rfl) (comesTo_refl _ _) given long)
      · obtain ⟨⟨⟩, -⟩ := runs_done_iff.mp rest
        exact .located (line_mem_lines_of_statement mem)
  | call request =>
      obtain ⟨v, middle, -, rest⟩ | ⟨_, failed, ⟨⟩⟩ := runs.of_bind
      · simp at rest
      · exact .called (hnodes List.mem_cons_self) ((comesTo_refl _ _).bind_left _) failed

theorem fails_of_runStatements {statements : List (Statement Numeral CodePoints)}
    (mem : statements ⊆ script.statements)
    (runs : Runs executor (runStatements script.file statements) loader (.error fault) after) :
    Fails executor script (runStatements script.file statements) loader after fault := by
  induction statements generalizing loader with
  | nil => cases runs
  | cons statement rest ih =>
      obtain ⟨hfirst, hrest⟩ := List.cons_subset.mp mem
      -- other statements than a `return` are carried out before the rest
      have later (heq : runStatements script.file (statement :: rest) =
          (statement.perform script.file).bind fun _ => runStatements script.file rest) :
          Fails executor script (runStatements script.file (statement :: rest)) loader after
            fault := by
        rw [heq] at runs ⊢
        obtain ⟨_, middle, performed, runs⟩ | ⟨_, failed, ⟨⟩⟩ := runs.of_bind
        · exact (ih hrest runs).bind_right performed
        · exact (statement.fails hfirst failed).bind_left _
      cases statement with
      | «return» value line => exact value.fails (nodes_subset hfirst) runs
      | assign target value line => exact later rfl
      | print value line => exact later rfl
      | fail value line => exact later rfl
      | call request => exact later rfl

end Failures

/-- A script of a file that fails, with any modules, any names and any state of its loader,

* ends with the fault of a load that it asks for, which is due at a moment of the run;
* or its fault names the file and the line of one of the script's nodes;
* or a number is too large for a sum or for writing, or a text cannot be put out. Each of these does
  end the script, with a fault from outside. -/
theorem failure_located_unless_outside {path : String} {text : List Char} {script : Script}
    (parsed : parse (some path) text = .ok script) (executor : Executor Host)
    (loader : Loader Host) :
    (∀ fault after, Runs executor (run script) loader (.error fault) after →
      (∃ request now, .call request ∈ script.nodes ∧
        ComesTo executor (run script) loader
          (Program.call request.safe request.path.fileName) now ∧
        Runs executor (.call request.safe request.path.fileName) now (.error fault) after) ∨
      (∃ line ∈ script.lines, ∃ report, fault = .script ⟨some path, some line⟩ report) ∨
      FailsOutside executor script (run script) loader after fault) ∧
    ∀ fault after, FailsOutside executor script (run script) loader after fault →
      Runs executor (run script) loader (.error fault) after := by
  refine ⟨fun fault after runs => ?_, fun fault after outside => outside.runs⟩
  cases fails_of_runStatements (List.Subset.refl _) runs with
  | called node due ended => exact .inl ⟨_, _, node, due, ended⟩
  | located mem => exact .inr (.inl ⟨_, mem, _, by rw [file_of_parse parsed]⟩)
  | outside h => exact .inr (.inr h)

def mismatchedText : List Char :=
  "let a = true\nprint (\na + 1)".toList

def mismatchedScript : Script :=
  ⟨some "/a.il", [.assign "a" (.boolean true 1) 1,
    .print (.add (.name "a" 3) (.number (.int 1) 3)) 2]⟩

def filelessLoader : Loader Host :=
  Loader.start ⟨⟨"/", "", []⟩, .build [] []⟩ .md5 [] .empty

/-- The fault is on the line of the operand, not on that of the statement. -/
theorem failure_located_unless_outside_mismatched :
    parse (some "/a.il") mismatchedText = .ok mismatchedScript ∧
      ∃ after, Runs executor (run mismatchedScript) filelessLoader
        (.error (.script ⟨some "/a.il", some 3⟩ (.operandMismatch "boolean" "number"))) after ∧
      ∃ line ∈ mismatchedScript.lines, (3 : Int) = line := by
  have hparse : parse (some "/a.il") mismatchedText = .ok mismatchedScript := by
    with_unfolding_all rfl
  have hruns : Runs executor (run mismatchedScript) filelessLoader
      (.error (.script ⟨some "/a.il", some 3⟩ (.operandMismatch "boolean" "number")))
      { filelessLoader with host := ⟨[("a", .boolean true)], ""⟩ } :=
    runs_iff_exists_depth.mpr ⟨0, rfl⟩
  refine ⟨hparse, _, hruns, ?_⟩
  obtain ⟨request, now, node, -, -⟩ | ⟨line, mem, report, hfault⟩ | outside :=
    (failure_located_unless_outside hparse executor filelessLoader).1 _ _ hruns
  · simp [nodes, mismatchedScript, Statement.nodes, Expr.nodes] at node
  · cases hfault
    exact ⟨_, mem, rfl⟩
  · cases outside

def overflowingText : List Char :=
  "return 1. + 1".toList ++ List.replicate 309 '0'

/-- So a script without any load can fail, and its fault tells neither its file nor a line. -/
theorem overflow_not_located :
    ¬∀ (path : String) (text : List Char) (script : Script) (executor : Executor Host)
      (loader after : Loader Host) (fault : Fault), parse (some path) text = .ok script →
      Runs executor (run script) loader (.error fault) after →
      (∃ request now, .call request ∈ script.nodes ∧
        Runs executor (.call request.safe request.path.fileName) now (.error fault) after) ∨
      ∃ line ∈ script.lines, ∃ report, fault = .script ⟨some path, some line⟩ report := by
  intro h
  have hfacts : (parse (some "/a.il") overflowingText).toOption.map (fun script =>
      (script.nodes.any (fun | .call _ => true | _ => false),
        (filelessLoader.run executor 0 (run script)).map fun result =>
          match result.1 with | .ok _ => none | .error fault => some fault)) =
      some (false, some (some (.foreign .overflow "int too large to convert to float"))) := by
    decide +kernel
  rcases hparse : parse (some "/a.il") overflowingText with error | script
  · rw [hparse] at hfacts
    cases hfacts
  · rw [hparse] at hfacts
    obtain ⟨hcalls, hrun⟩ := Prod.mk.inj (Option.some.inj hfacts)
    obtain ⟨⟨outcome, after⟩, hrun, houtcome⟩ := Option.map_eq_some_iff.mp hrun
    rcases outcome with fault | value
    · cases houtcome
      obtain ⟨request, now, node, -⟩ | ⟨line, -, report, hfault⟩ :=
        h _ _ _ _ _ _ _ hparse (runs_of_run hrun)
      · exact List.any_eq_false.mp hcalls _ node rfl
      · cases hfault
    · cases houtcome

end Script

end ScriptLoader
