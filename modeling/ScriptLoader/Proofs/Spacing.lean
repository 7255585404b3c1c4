import ScriptLoader.Proofs.Scanning

/-!
Gaps carry no meaning. What a token is read as depends on the tokens before it and on its own text,
so the tokens of a text are found again in every text in which gaps set them off from one another.
How wide the gaps are, and which of the tokens touched one another before, decides on the lines
only.
-/

namespace ScriptLoader.Script

namespace Grammar

/-- The texts of tokens in order, with a gap in front of each and one behind the last. Only the
first and the last gap may be empty. -/
inductive Spaced : List (List Char) → List Char → Prop
  | done {s : List Char} (final : FinalGap s) : Spaced [] s
  | token {gap text rest : List Char} {texts : List (List Char)} (between : Gap gap)
      (apart : Apart rest) (later : Spaced texts rest) :
      Spaced (text :: texts) (gap ++ (text ++ rest))

/-- Tokens are found again in every text that sets them off by gaps, though on other lines. -/
theorem Separable.exists_scans {mode : Mode} {tokens : List Token} (h : Separable mode tokens)
    {s : List Char} (hs : Spaced (tokens.map (·.text)) s) (line : Nat) :
    ∃ scanned, Scans mode line s scanned ∧ Agree (fun _ => 0) (fun _ => 0) scanned tokens := by
  induction h generalizing s line with
  | nil =>
      cases hs with
      | done final => exact ⟨[], .done final, rfl⟩
  | @cons mode token rest taken _ ih =>
      cases hs with
      | @token gap text later _ between apart spaced =>
          obtain ⟨scanned, hscans, agree⟩ := ih spaced (line + gap.count '\n')
          refine ⟨_, .token between (taken.apart apart) hscans, ?_⟩
          exact List.cons_eq_cons.mpr ⟨rfl, agree⟩

end Grammar

open Grammar

/-- If a text is a script, then so is every text that sets the same tokens off by gaps, and the
statements are the same up to their lines. -/
theorem parse_respaced {file : Option String} {s s' : List Char} {script : Script}
    (h : parse file s = .ok script)
    (spaced : Spaced ((Scan.ofText s).tokens.map (·.text)) s') :
    ∃ script', parse file s' = .ok script' ∧ script'.file = script.file ∧
      script'.statements.map (Statement.mapLine fun _ => 0) =
        script.statements.map (Statement.mapLine fun _ => 0) := by
  obtain ⟨hfile, tokens, hscans, hmeans⟩ := (parse_iff_means file s script).mp h
  have htokens : (Scan.ofText s).tokens = tokens := by
    rw [Scan.ofText, scans_iff.mp hscans]
  rw [htokens] at spaced
  obtain ⟨scanned, hscans', agree⟩ := hscans.separable.exists_scans spaced 1
  obtain ⟨statements, hmeans', hsame⟩ := hmeans.of_agree agree
  exact ⟨⟨file, statements⟩, (parse_iff_means file s' _).mpr ⟨rfl, scanned, hscans', hmeans'⟩,
    hfile.symm, hsame⟩

/-- Tokens that touch one another, a semicolon in a string, and gaps of all kinds. -/
theorem parse_respaced_crowded :
    Spaced ((Scan.ofText "letx=-1+\"a;b\"printx".toList).tokens.map (·.text))
        "; 1\nlet\tx =\r\n-1;\n+\x0c\"a;b\" ; print\n\nprint x ; x".toList ∧
      ∃ script', parse none
          "; 1\nlet\tx =\r\n-1;\n+\x0c\"a;b\" ; print\n\nprint x ; x".toList = .ok script' ∧
        script'.file = none ∧
        script'.statements.map (Statement.mapLine fun _ => 0) =
          [.assign "x" (.add (.number (.int (-1)) 0) (.text "a;b" 0)) 0,
            .print (.name "x" 0) 0] := by
  have hparse : parse none "letx=-1+\"a;b\"printx".toList =
      .ok ⟨none, [.assign "x" (.add (.number (.int (-1)) 1) (.text "a;b" 1)) 1,
        .print (.name "x" 1) 1]⟩ := by
    with_unfolding_all rfl
  have htokens : (Scan.ofText "letx=-1+\"a;b\"printx".toList).tokens.map (·.text) =
      ["let".toList, "x".toList, "=".toList, "-1".toList, "+".toList, "\"a;b\"".toList,
        "print".toList, "x".toList] := by
    decide +kernel
  have hspaced : Spaced ((Scan.ofText "letx=-1+\"a;b\"printx".toList).tokens.map (·.text))
      "; 1\nlet\tx =\r\n-1;\n+\x0c\"a;b\" ; print\n\nprint x ; x".toList := by
    rw [htokens]
    have hspace : Gap " ".toList := .blank rfl .nil
    have hfirst : Gap "; 1\n".toList := @Gap.comment " 1".toList [] (by decide) .nil
    have hempty : Gap ";\n".toList := @Gap.comment [] [] (by decide) .nil
    have hlast : FinalGap " ; x".toList :=
      .inr ⟨" ".toList, " x".toList, rfl, hspace, by decide⟩
    have hcomment : Gap " ; print\n\n".toList :=
      hspace.append (@Gap.comment " print".toList ['\n'] (by decide) (.blank rfl .nil))
    refine @Spaced.token "; 1\n".toList "let".toList _ _ hfirst (by decide) ?_
    refine @Spaced.token "\t".toList "x".toList _ _ (.blank rfl .nil) (by decide) ?_
    refine @Spaced.token " ".toList "=".toList _ _ hspace (by decide) ?_
    refine @Spaced.token "\r\n".toList "-1".toList _ _ (.blank rfl (.blank rfl .nil)) (by decide) ?_
    refine @Spaced.token ";\n".toList "+".toList _ _ hempty (by decide) ?_
    refine @Spaced.token "\x0c".toList "\"a;b\"".toList _ _ (.blank rfl .nil) (by decide) ?_
    refine @Spaced.token " ; print\n\n".toList "print".toList _ _ hcomment (by decide) ?_
    exact @Spaced.token " ".toList "x".toList _ _ hspace (by decide) (.done hlast)
  exact ⟨hspaced, parse_respaced hparse hspaced⟩

end ScriptLoader.Script
