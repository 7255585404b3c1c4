import ScriptLoader.Proofs.Acceptance
import ScriptLoader.Proofs.Lines

/-!
Scanning as a relation between a mode, a line, a text and the tokens of the text. In this form a
text can be cut between two tokens and put together again: a token is found again, with the same
text, whatever comes behind it, as long as what was not there before is set off by a gap.
-/

namespace ScriptLoader.Script

def Mode.afterAll (mode : Mode) (tokens : List Token) : Mode :=
  tokens.foldl (fun mode token => mode.after token.terminal) mode

@[simp] theorem Mode.afterAll_append (mode : Mode) (tokens others : List Token) :
    mode.afterAll (tokens ++ others) = (mode.afterAll tokens).afterAll others :=
  List.foldl_append

namespace Grammar

open Lexeme

inductive Scans : Mode → Nat → List Char → List Token → Prop
  | done {mode : Mode} {line : Nat} {s : List Char} (final : FinalGap s) : Scans mode line s []
  | token {mode : Mode} {line : Nat} {gap text rest : List Char} {terminal : Terminal}
      {tokens : List Token} (between : Gap gap)
      (taken : Taken (· ∈ admitted mode) terminal text rest)
      (later : Scans (mode.after terminal) (line + gap.count '\n') rest tokens) :
      Scans mode line (gap ++ (text ++ rest)) (⟨terminal, text, line + gap.count '\n'⟩ :: tokens)

theorem scanFrom_of_scans {mode : Mode} {line : Nat} {s : List Char} {tokens : List Token}
    (h : Scans mode line s tokens) : Scan.scanFrom mode line s = ⟨tokens, .endOfFile⟩ := by
  induction h with
  | done final => exact scanFrom_of_finalGap final _ _
  | token between taken _ ih =>
      rw [scanFrom_of_find? between taken.endsGap.1 (find?_iff.mpr ⟨_, rfl, taken⟩), ih]

theorem scans_of_ending {mode : Mode} {line : Nat} {s : List Char}
    (h : (Scan.scanFrom mode line s).ending = .endOfFile) :
    Scans mode line s (Scan.scanFrom mode line s).tokens := by
  induction hlength : s.length using Nat.strongRecOn generalizing s mode line with
  | ind length ih =>
      subst hlength
      obtain ⟨gap, rest, rfl, hgap, hends⟩ | hfinal := gap_cases s
      · rcases hfind : find? mode rest with _ | ⟨terminal, text⟩
        · exact (ending_of_find?_none hgap hends hfind line h).elim
        · obtain ⟨later, rfl, taken⟩ := find?_iff.mp hfind
          have hsolid := taken.endsGap.1
          have hshorter : later.length < (gap ++ (text ++ later)).length := by
            obtain ⟨c, more, rfl, -⟩ := hsolid
            simp only [List.length_append, List.length_cons]
            omega
          rw [scanFrom_of_find? hgap hsolid hfind] at h ⊢
          exact .token hgap taken (ih later.length hshorter h rfl)
      · rw [scanFrom_of_finalGap hfinal]
        exact .done hfinal

theorem scans_iff {mode : Mode} {line : Nat} {s : List Char} {tokens : List Token} :
    Scans mode line s tokens ↔ Scan.scanFrom mode line s = ⟨tokens, .endOfFile⟩ := by
  refine ⟨scanFrom_of_scans, fun h => ?_⟩
  have hscans : Scans mode line s (Scan.scanFrom mode line s).tokens := scans_of_ending (by rw [h])
  rwa [h] at hscans

/-- What parsing gives is what the scanned tokens mean. -/
theorem parse_iff_means (file : Option String) (s : List Char) (script : Script) :
    parse file s = .ok script ↔
      script.file = file ∧ ∃ tokens, Scans .start 1 s tokens ∧ Means tokens script.statements := by
  rw [parse_iff, readStatements_iff]
  refine and_congr_right fun _ => ?_
  constructor
  · rintro ⟨raw, hread, hdecode⟩
    obtain ⟨hending, tree, htokens, rfl⟩ := (read_iff _ _).mp hread
    have hscan : Scan.ofText s = ⟨tree.tokens, .endOfFile⟩ := by rw [htokens, ← hending]
    exact ⟨_, scans_iff.mpr hscan, tree, rfl, hdecode⟩
  · rintro ⟨tokens, hscans, tree, htokens, hdecode⟩
    have hscan : Scan.ofText s = ⟨tokens, .endOfFile⟩ := scans_iff.mp hscans
    refine ⟨tree.statements, (read_iff _ _).mpr ⟨?_, tree, ?_, rfl⟩, hdecode⟩
    · rw [hscan]
    · rw [hscan, htokens]

/-! ### Gaps -/

theorem Gap.append {first second : List Char} (h : Gap first) (hsecond : Gap second) :
    Gap (first ++ second) := by
  induction h with
  | nil => exact hsecond
  | blank hblank _ ih => exact .blank hblank ih
  | comment hbody _ ih =>
      rw [List.cons_append, List.append_assoc, List.cons_append]
      exact .comment hbody ih

/-- A line feed ends a comment that is open at the end of a text. -/
theorem FinalGap.lineFeed {s : List Char} (h : FinalGap s) : Gap (s ++ ['\n']) := by
  rcases h with h | ⟨gap, body, rfl, h, hbody⟩
  · exact h.append (.blank rfl .nil)
  · rw [List.append_assoc]
    exact h.append (.comment hbody .nil)

theorem Gap.finalGap {gap s : List Char} (h : Gap gap) (hs : FinalGap s) : FinalGap (gap ++ s) := by
  rcases hs with hs | ⟨others, body, rfl, hs, hbody⟩
  · exact .inl (h.append hs)
  · exact .inr ⟨gap ++ others, body, by simp, h.append hs, hbody⟩

/-- A gap in front of a text only moves its lines. -/
theorem Scans.behind {mode : Mode} {line : Nat} {gap s : List Char} {tokens : List Token}
    (hgap : Gap gap) (h : Scans mode (line + gap.count '\n') s tokens) :
    Scans mode line (gap ++ s) tokens := by
  cases h with
  | done final => exact .done (hgap.finalGap final)
  | @token _ _ between text rest terminal _ hbetween taken later =>
      have hcount : line + gap.count '\n' + between.count '\n' =
          line + (gap ++ between).count '\n' := by
        rw [List.count_append, Nat.add_assoc]
      rw [hcount] at later ⊢
      rw [← List.append_assoc]
      exact .token (hgap.append hbetween) taken later

/-! ### What stands behind a token -/

/-- No token goes on here: the text is at its end, or a gap begins. -/
def Apart (s : List Char) : Prop :=
  ∀ c ∈ s.head?, ¬Solid c

instance (c : Char) : Decidable (Solid c) :=
  inferInstanceAs (Decidable (isBlank c = false ∧ c ≠ ';'))

-- named here, as otherwise the instance that is found may be the one that tries every character
instance (s : List Char) : Decidable (Apart s) :=
  Option.decidableForallMem s.head?

theorem apart_of_isBlank {c : Char} (h : isBlank c = true) (rest : List Char) :
    Apart (c :: rest) := by
  rintro d ⟨⟩ ⟨hsolid, -⟩
  rw [h] at hsolid
  cases hsolid

theorem EndsIdentifier.respaced {common lost back : List Char}
    (h : EndsIdentifier (common ++ lost)) (hback : Apart back) :
    EndsIdentifier (common ++ back) := by
  rcases common with _ | ⟨c, common⟩
  · intro c hc
    rcases hpart : isNamePart c with _ | _
    · rfl
    · exact (hback c hc (solid_of_isNamePart hpart)).elim
  · exact h

theorem front_of_solid {longer front back : List Char} (h : longer <+: front ++ back)
    (hsolid : ∀ c ∈ longer, Solid c) (hback : Apart back) : longer <+: front := by
  rcases List.prefix_or_prefix_of_prefix h (List.prefix_append front back) with hfront | ⟨more, rfl⟩
  · exact hfront
  · obtain ⟨rest, rfl⟩ := (List.prefix_append_right_inj front).mp h
    rcases more with _ | ⟨c, more⟩
    · simp
    · exact (hback c rfl (hsolid c (by simp))).elim

/-- The end of what stands behind a token may be lost, and another text may come for it behind a
gap. -/
theorem Taken.respaced {viable : Terminal → Prop} {terminal : Terminal}
    {text common lost back : List Char} (h : Taken viable terminal text (common ++ lost))
    (hback : Apart back) : Taken viable terminal text (common ++ back) := by
  cases h with
  | bare may word noName => exact .bare may word noName
  | word may word name whole => exact .word may word name (whole.respaced hback)
  | name may identifier whole noWord => exact .name may identifier (whole.respaced hback) noWord
  | number may number longest =>
      refine .number may number fun longer hlonger hfront => longest longer hlonger ?_
      rw [← List.append_assoc] at hfront ⊢
      -- a longer number would have to reach into what comes behind the gap
      have hsolid : ∀ c ∈ longer, Solid c := fun c hc => solid_of_isFigure (hlonger.figures c hc)
      exact (front_of_solid hfront hsolid hback).trans (List.prefix_append _ _)
  | string may string => exact .string may string
  | mark may mark => exact .mark may mark

theorem Taken.apart {viable : Terminal → Prop} {terminal : Terminal} {text rest back : List Char}
    (h : Taken viable terminal text rest) (hback : Apart back) :
    Taken viable terminal text back := by
  have hnothing : Taken viable terminal text ([] ++ rest) := h
  exact hnothing.respaced hback

theorem Taken.append_apart {viable : Terminal → Prop} {terminal : Terminal}
    {text rest back : List Char} (h : Taken viable terminal text rest) (hback : Apart back) :
    Taken viable terminal text (rest ++ back) := by
  rw [← List.append_nil rest] at h
  exact h.respaced hback

/-! ### Tokens one by one -/

/-- Each of the tokens is found in the mode that it comes in, if nothing stands behind it. -/
inductive Separable : Mode → List Token → Prop
  | nil {mode : Mode} : Separable mode []
  | cons {mode : Mode} {token : Token} {rest : List Token}
      (taken : Taken (· ∈ admitted mode) token.terminal token.text [])
      (later : Separable (mode.after token.terminal) rest) : Separable mode (token :: rest)

theorem Scans.separable {mode : Mode} {line : Nat} {s : List Char} {tokens : List Token}
    (h : Scans mode line s tokens) : Separable mode tokens := by
  induction h with
  | done _ => exact .nil
  | token _ taken _ ih => exact .cons (taken.apart (by decide)) ih

theorem Separable.append {mode : Mode} {tokens others : List Token} (h : Separable mode tokens)
    (hothers : Separable (mode.afterAll tokens) others) : Separable mode (tokens ++ others) := by
  induction h with
  | nil => exact hothers
  | cons taken _ ih => exact .cons taken (ih hothers)

/-- Such tokens with a space between them are a text in which they are found again. -/
theorem Separable.scans_intercalate {mode : Mode} {tokens : List Token} (h : Separable mode tokens)
    (line : Nat) :
    Scans mode line ([' '].intercalate (tokens.map (·.text)))
      (tokens.map (Token.mapLine fun _ => line)) := by
  induction h with
  | nil => exact .done (.inl .nil)
  | @cons mode token rest taken _ ih =>
      rcases rest with _ | ⟨next, others⟩
      · have hscans : Scans mode line ([] ++ (token.text ++ []))
            [⟨token.terminal, token.text, line⟩] := .token .nil taken (.done (.inl .nil))
        rw [List.append_nil] at hscans
        rw [List.map_singleton, List.intercalate_singleton]
        exact hscans
      · have hlater : Scans (mode.after token.terminal) line
            ([' '] ++ [' '].intercalate ((next :: others).map (·.text)))
            ((next :: others).map (Token.mapLine fun _ => line)) :=
          Scans.behind (.blank rfl .nil) ih
        have hscans := Scans.token .nil (taken.apart (apart_of_isBlank rfl _)) hlater
        rw [List.map_cons, List.map_cons, List.intercalate_cons_cons, List.append_assoc]
        exact hscans

/-! ### The mode behind a script -/

@[simp] theorem CallTree.afterAll_tokens (tree : CallTree) (mode : Mode) :
    mode.afterAll tree.tokens = .valueEnd := by
  obtain ⟨_ | _, word, path⟩ := tree <;> rfl

@[simp] theorem ExprTree.afterAll_tokens {rank : Rank} (tree : ExprTree rank) :
    Mode.operand.afterAll tree.tokens = .valueEnd := by
  induction tree with
  | operand atom ih => exact ih
  | add left plus right _ ihright =>
      rw [tokens, Mode.afterAll_append]
      exact ihright
  | call call => exact call.afterAll_tokens .operand
  | parens opening inside closing _ =>
      rw [tokens, ← List.cons_append, Mode.afterAll_append]
      rfl
  | _ => rfl

@[simp] theorem StatementTree.afterAll_tokens (tree : StatementTree) (mode : Mode) :
    mode.afterAll tree.tokens = .valueEnd := by
  cases tree with
  | assign word name sign value => exact value.afterAll_tokens
  | print word value => exact value.afterAll_tokens
  | «return» word value => exact value.afterAll_tokens
  | fail word value => exact value.afterAll_tokens
  | call call => exact call.afterAll_tokens mode

/-- A script leaves no expression open. -/
theorem ScriptTree.afterAll_tokens (tree : ScriptTree) :
    Mode.start.afterAll tree.tokens = .start ∨ Mode.start.afterAll tree.tokens = .valueEnd := by
  rcases List.eq_nil_or_concat tree with rfl | ⟨earlier, last, rfl⟩
  · exact .inl rfl
  · have hlast : ScriptTree.tokens [last] = last.tokens := List.flatMap_singleton _ _
    rw [List.concat_eq_append, tokens_append, Mode.afterAll_append, hlast]
    exact .inr (last.afterAll_tokens _)

/-- Where a statement may begin, its word is found whatever stands behind it. -/
theorem taken_statementStart {mode : Mode} (hmode : mode = .start ∨ mode = .valueEnd)
    {terminal : Terminal} {text : List Char} (hmem : terminal ∈ Terminal.statementStarts)
    (hword : word? terminal = some text) (rest : List Char) :
    Taken (· ∈ admitted mode) terminal text rest := by
  rcases hmode with rfl | rfl
  · exact .bare hmem hword (by decide)
  · exact .bare (List.mem_append_left _ hmem) hword (by decide)

/-! ### One text behind another -/

/-- The same text from a later line on. -/
theorem Scans.later {mode : Mode} {line : Nat} {s : List Char} {tokens : List Token}
    (h : Scans mode line s tokens) (count : Nat) :
    Scans mode (line + count) s (tokens.map (Token.mapLine (· + count))) := by
  induction h with
  | done final => exact .done final
  | @token mode line gap text rest terminal tokens between taken _ ih =>
      rw [Nat.add_right_comm] at ih
      have hscans := Scans.token between taken ih
      rw [Nat.add_right_comm] at hscans
      exact hscans

/-- A line feed between two texts belongs to no token, and the second text goes on in the mode in
which the first one ends. -/
theorem Scans.append {mode : Mode} {line : Nat} {s s' : List Char} {tokens tokens' : List Token}
    (h : Scans mode line s tokens)
    (h' : Scans (mode.afterAll tokens) (line + s.count '\n' + 1) s' tokens') :
    Scans mode line (s ++ '\n' :: s') (tokens ++ tokens') := by
  induction h with
  | @done mode line s final =>
      rw [List.append_cons]
      apply Scans.behind final.lineFeed
      rwa [List.count_append]
  | @token mode line gap text rest terminal tokens between taken _ ih =>
      have hcount : line + (gap ++ (text ++ rest)).count '\n' =
          line + gap.count '\n' + rest.count '\n' := by
        simp only [List.count_append, List.count_eq_zero_of_not_mem taken.endsGap.2]
        omega
      rw [hcount] at h'
      have hscans := Scans.token between (taken.append_apart (apart_of_isBlank rfl s')) (ih h')
      rwa [List.append_assoc, List.append_assoc]

end Grammar

end ScriptLoader.Script
