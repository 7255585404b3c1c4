import ScriptLoader.Proofs.Scanning

/-!
Scripts one behind the other. No statement is marked as ended, but behind a whole script the scanner
is in a mode in which the next script is found as it is found at the start of a text. A line feed
between the two keeps the last token of the first, and a comment behind it, away from the second.
-/

namespace ScriptLoader.Script.Grammar

/-! ### The first token of the second script -/

theorem word?_of_taken_start {terminal : Terminal} {text rest : List Char}
    (h : Taken (· ∈ admitted .start) terminal text rest) :
    terminal ∈ Terminal.statementStarts ∧ word? terminal = some text := by
  obtain ⟨hmem, hword | ⟨c, hmark, -⟩⟩ :=
    (taken_iff (by decide) (by decide) (by decide)).mp h
  · exact ⟨hmem, hword⟩
  · rw [mark?_of_statementStarts hmem] at hmark
    cases hmark

theorem after_statementStarts {terminal : Terminal} (h : terminal ∈ Terminal.statementStarts)
    (mode mode' : Mode) : mode.after terminal = mode'.after terminal := by
  rcases mem_statementStarts.mp h with rfl | rfl | rfl | rfl | rfl | rfl <;> rfl

/-- Where a statement may end, what is a script at the start of a text is found as well. -/
theorem Scans.valueEnd {line : Nat} {s : List Char} {tokens : List Token}
    (h : Scans .start line s tokens) : Scans .valueEnd line s tokens := by
  cases h with
  | done final => exact .done final
  | token between taken later =>
      obtain ⟨hmem, hword⟩ := word?_of_taken_start taken
      rw [after_statementStarts hmem .start .valueEnd] at later
      exact .token between (taken_statementStart (.inr rfl) hmem hword _) later

/-! ### Two scripts -/

theorem Means.afterAll {tokens : List Token} {statements : List (Statement Numeral CodePoints)}
    (h : Means tokens statements) :
    Mode.start.afterAll tokens = .start ∨ Mode.start.afterAll tokens = .valueEnd := by
  obtain ⟨tree, rfl, -⟩ := h
  exact tree.afterAll_tokens

end ScriptLoader.Script.Grammar

namespace ScriptLoader.Script

open Grammar

/-- A script, a line feed and another script are a script, whose statements are those of the first
and then those of the second. The second one begins as many lines further down as the first has line
feeds, and one more. -/
theorem parse_append_lineFeed {file : Option String} {s s' : List Char} {script script' : Script}
    (h : parse file s = .ok script) (h' : parse file s' = .ok script') :
    parse file (s ++ '\n' :: s') =
      .ok ⟨file, script.statements ++
        script'.statements.map (Statement.mapLine (· + (s.count '\n' + 1)))⟩ := by
  obtain ⟨-, tokens, hscans, hmeans⟩ := (parse_iff_means file s script).mp h
  obtain ⟨-, tokens', hscans', hmeans'⟩ := (parse_iff_means file s' script').mp h'
  refine (parse_iff_means file _ _).mpr ⟨rfl, _, ?_, hmeans.append (hmeans'.mapLine _)⟩
  apply hscans.append
  have hlater := hscans'.later (s.count '\n' + 1)
  rw [← Nat.add_assoc] at hlater
  -- behind an empty script a text still begins, behind any other one a statement may end
  rcases hmeans.afterAll with hmode | hmode
  · rw [hmode]
    exact hlater
  · rw [hmode]
    exact hlater.valueEnd

/-- A comment at the end of the first script ends there, and `require` behind it is no operand. -/
theorem parse_append_lineFeed_requireBehindComment :
    parse none "let a = load \"x\"\nprint a + ; end\n1 ; \"".toList =
        .ok ⟨none, [.assign "a" (.call ⟨"x", false, 1⟩) 1,
          .print (.add (.name "a" 2) (.number (.int 1) 3)) 2]⟩ ∧
      parse none "require \"y\"\nprint nil".toList =
        .ok ⟨none, [.call ⟨"y", true, 1⟩, .print (.nil 2) 2]⟩ ∧
      parse none ("let a = load \"x\"\nprint a + ; end\n1 ; \"".toList ++
          '\n' :: "require \"y\"\nprint nil".toList) =
        .ok ⟨none, [.assign "a" (.call ⟨"x", false, 1⟩) 1,
          .print (.add (.name "a" 2) (.number (.int 1) 3)) 2,
          .call ⟨"y", true, 4⟩, .print (.nil 5) 5]⟩ := by
  have first : parse none "let a = load \"x\"\nprint a + ; end\n1 ; \"".toList =
      .ok ⟨none, [.assign "a" (.call ⟨"x", false, 1⟩) 1,
        .print (.add (.name "a" 2) (.number (.int 1) 3)) 2]⟩ := by
    with_unfolding_all rfl
  have second : parse none "require \"y\"\nprint nil".toList =
      .ok ⟨none, [.call ⟨"y", true, 1⟩, .print (.nil 2) 2]⟩ := by
    with_unfolding_all rfl
  exact ⟨first, second, parse_append_lineFeed first second⟩

end ScriptLoader.Script
