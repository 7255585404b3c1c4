import Mathlib.Data.List.Basic
import ScriptLoader.Proofs.Obstacles

/-!
What a message names as expected. The reader names exactly what some script goes on with. Where the
scanner finds nothing that it looks for, the message is made from the mode instead, and the mode
knows neither the open parentheses nor whether the text may end: behind a value it names a closing
parenthesis and every statement word, and where an operand is due it leaves out the words.
-/

namespace ScriptLoader.Script

open Grammar Lexeme

/-! ### The names of terminals -/

theorem Terminal.label_injective : Function.Injective Terminal.label := by
  intro a b h
  cases a <;> cases b <;> first | rfl | exact absurd h (by decide)

def SyntaxError.Names (expected : List Terminal) (terminal : Terminal) : Prop :=
  terminal.label ∈ labels expected

@[simp] theorem SyntaxError.names_iff {expected : List Terminal} {terminal : Terminal} :
    Names expected terminal ↔ terminal ∈ expected := by
  rw [Names, labels, List.mem_mergeSort]
  exact List.mem_map_of_injective Terminal.label_injective

namespace Grammar

/-! ### What may follow -/

/-- After some tokens a token of the terminal may come, or the text may end there: they begin, or
are, the tokens of a script. -/
def MayFollow (tokens : List Token) (terminal : Terminal) : Prop :=
  Viable tokens terminal ∨
    terminal = .endOfFile ∧ ∃ tree : ScriptTree, tree.tokens = tokens

@[simp] theorem State.endOfFile_accepted_iff (state : Reader.State) :
    .endOfFile ∈ state.accepted ↔ state.ended?.isSome := by
  have hoperand : Terminal.endOfFile ∉ Terminal.operandStarts := by decide
  cases state with
  | value context sum =>
      obtain ⟨head, _ | ⟨pending, outside⟩⟩ := context <;>
        simp [Reader.State.accepted, Reader.State.ended?]
  | _ => simp [Reader.State.accepted, Reader.State.ended?, hoperand]

/-- The reader accepts what may follow the tokens that it has taken in. -/
theorem mayFollow_iff_accepted {tokens : List Token} {progress : Progress}
    (h : Progress.begin.stepAll? tokens = some progress) (terminal : Terminal) :
    MayFollow tokens terminal ↔ terminal ∈ progress.forget.state.accepted := by
  have hend : (∃ tree : ScriptTree, tree.tokens = tokens) ↔
      .endOfFile ∈ progress.forget.state.accepted := by
    rw [State.endOfFile_accepted_iff, Progress.forget, Progress.State.forget_ended?,
      Option.isSome_map, Option.isSome_iff_exists]
    constructor
    · rintro ⟨tree, rfl⟩
      obtain ⟨next, hnext, hfinish⟩ := Progress.exists_stepAll?_tokens tree
      cases hnext.symm.trans h
      obtain ⟨ended, hended, -⟩ := Option.map_eq_some_iff.mp hfinish
      exact ⟨ended, hended⟩
    · rintro ⟨ended, hended⟩
      have hfinish : progress.finish? = some (ended ++ progress.complete).reverse := by
        rw [Progress.finish?, hended]
        rfl
      refine ⟨_, (Progress.tokens_finish? hfinish).trans ?_⟩
      rw [Progress.tokens_stepAll? h]
      rfl
  rw [MayFollow, viable_iff_awaited h, hend, Awaited]
  by_cases hterminal : terminal = .endOfFile
  · simp [hterminal]
  · simp [hterminal]

/-! ### What is listed where nothing fits -/

def Sought (tokens : List Token) (rest : List Char) : Prop :=
  ∃ terminal text others, rest = text ++ others ∧
    Taken (· ∈ admitted (Mode.start.afterAll tokens)) terminal text others

/-- The terminals that are named if nothing fits. Behind a value these are always the same; where an
operand is due the words are left out, and elsewhere the end of the text. -/
def Listed (tokens : List Token) (terminal : Terminal) : Prop :=
  match Mode.start.afterAll tokens with
  | .valueEnd => terminal ∈ Terminal.statementStarts ++ [.closing, .plus]
  | .operand => Viable tokens terminal ∧ terminal ∉ Terminal.operandWords.map (·.2)
  | _ => Viable tokens terminal

theorem sought_iff {tokens : List Token} {rest : List Char} :
    Sought tokens rest ↔ find? (Mode.start.afterAll tokens) rest ≠ none := by
  rw [Option.ne_none_iff_exists']
  constructor
  · rintro ⟨terminal, text, others, hsplit, taken⟩
    exact ⟨(terminal, text), find?_iff.mpr ⟨others, hsplit, taken⟩⟩
  · rintro ⟨⟨terminal, text⟩, hfind⟩
    obtain ⟨others, hsplit, taken⟩ := find?_iff.mp hfind
    exact ⟨terminal, text, others, hsplit, taken⟩

/-- The modes in which all that is accepted is also looked for, and named. -/
theorem mem_expected_iff_accepted (state : Reader.State) :
    (∀ terminal, terminal ∈ state.mode.expected ↔ terminal ∈ state.accepted) ↔
      state.mode ∈ [Mode.target, .equals, .path] := by
  have hinexact (mode : Mode) (accepted : List Terminal) (terminal : Terminal)
      (hmem : mode ∉ [Mode.target, .equals, .path])
      (hdiffer : ¬(terminal ∈ mode.expected ↔ terminal ∈ accepted)) :
      (∀ terminal, terminal ∈ mode.expected ↔ terminal ∈ accepted) ↔
        mode ∈ [Mode.target, .equals, .path] :=
    iff_of_false (fun h => hdiffer (h terminal)) hmem
  -- what is missing, or named in vain
  cases state with
  | start => exact hinexact .start _ .endOfFile (by decide) (by decide)
  | operand context pending =>
      exact hinexact .operand Terminal.operandStarts .trueWord (by decide) (by decide)
  | value context sum =>
      obtain ⟨head, _ | ⟨pending, outside⟩⟩ := context
      · exact hinexact .valueEnd (Terminal.statementStarts ++ [.plus, .endOfFile]) .endOfFile
          (by decide) (by decide)
      · exact hinexact .valueEnd [.plus, .closing] .letWord (by decide) (by decide)
  | called request =>
      exact hinexact .valueEnd (Terminal.statementStarts ++ [.endOfFile]) .endOfFile
        (by decide) (by decide)
  | _ => exact iff_of_true (fun _ => Iff.rfl) (by simp [Reader.State.mode])

/-- The mode of the reader depends on the terminals that it has taken in. -/
theorem mode_of_stepAll? {tokens : List Token} {progress : Progress}
    (h : Progress.begin.stepAll? tokens = some progress) :
    progress.forget.state.mode = Mode.start.afterAll tokens :=
  mode_stepAll? h

theorem mem_expected_iff_listed {tokens : List Token} {progress : Progress}
    (h : Progress.begin.stepAll? tokens = some progress) (terminal : Terminal) :
    terminal ∈ progress.forget.state.mode.expected ↔ Listed tokens terminal := by
  have hadmitted (hvalue : progress.forget.state.mode ≠ .valueEnd) :
      Viable tokens terminal ↔ terminal ∈ admitted progress.forget.state.mode :=
    (viable_iff_awaited h terminal).trans ⟨Awaited.admitted, awaited_of_admitted hvalue⟩
  rw [Listed, ← mode_of_stepAll? h]
  cases hmode : progress.forget.state.mode with
  | valueEnd => exact Iff.rfl
  | operand =>
      show _ ↔ Viable tokens terminal ∧ _
      rw [hadmitted (by simp [hmode]), hmode]
      cases terminal <;> decide
  | _ =>
      rw [hmode] at hadmitted
      exact (hadmitted (by decide)).symm

theorem Obstacle.prefix_rest {tokens : List Token} {line reported : Nat} {text rest : List Char}
    {expected : List Terminal}
    (h : Obstacle tokens line rest (.unexpected (some text) expected reported)) :
    text <+: rest := by
  cases h with
  | token split _ _ => exact ⟨_, split.symm⟩

end Grammar

/-- The terminals that a syntax error names are exactly those that may follow what has been read, at
the end of the text and wherever a token is found that the reader refuses. They need not be where
nothing is found that is looked for: then the mode determines what is named, and that is exact
behind `let`, behind the name after it, and behind `load` and `require`, and nowhere else. -/
theorem expected_exact_unless_unfit (file : Option String) {s : List Char}
    {found : Option (List Char)} {expected : List Terminal} {line : Nat}
    (h : Reader.read (Scan.ofText s) = .error (.unexpected found expected line)) :
    parse file s = .error (.script ⟨file, some line⟩
        (.syntaxError (SyntaxError.unexpected found expected line).message)) ∧
      ∃ front rest tokens, s = front ++ rest ∧ Reads [] 1 front tokens ∧
        Obstacle tokens (1 + front.count '\n') rest (.unexpected found expected line) ∧
        (found = none ∨ Sought tokens rest →
          ∀ terminal, SyntaxError.Names expected terminal ↔ MayFollow tokens terminal) ∧
        (found ≠ none → ¬Sought tokens rest →
          (∀ terminal, SyntaxError.Names expected terminal ↔ Listed tokens terminal) ∧
          ((∀ terminal, SyntaxError.Names expected terminal ↔ MayFollow tokens terminal) ↔
            Mode.start.afterAll tokens ∈ [Mode.target, .equals, .path])) := by
  constructor
  · simp only [parse, readStatements, h]
    rfl
  · have hbegin : Progress.begin.stepAll? [] = some Progress.begin := rfl
    rw [Reader.read_eq_readFrom] at h
    obtain ⟨front, rest, tokens, progress, hsplit, hreads, hprogress, -, hstop⟩ :=
      exists_stop hbegin h
    rw [List.nil_append] at hprogress hstop
    have hmode := mode_of_stepAll? hprogress
    refine ⟨front, rest, tokens, hsplit, hreads, hstop.obstacle hprogress, ?_⟩
    simp only [SyntaxError.names_iff, mayFollow_iff_accepted hprogress]
    cases hstop with
    | @refused terminal text others taken _ =>
        refine ⟨fun _ _ => Iff.rfl, fun _ hunfit => (hunfit ?_).elim⟩
        exact ⟨terminal, text, others, rfl, hmode ▸ taken⟩
    | @unfit c text others nothing _ =>
        rw [hmode] at nothing
        refine ⟨fun hsought => ?_, fun _ _ => ⟨mem_expected_iff_listed hprogress, ?_⟩⟩
        · rcases hsought with hnone | hsought
          · cases hnone
          · exact (sought_iff.mp hsought nothing).elim
        · rw [← hmode]
          exact mem_expected_iff_accepted _
    | unfinished _ => exact ⟨fun _ _ => Iff.rfl, fun hfound => (hfound rfl).elim⟩

def unclosedText : List Char := "print (1\nlet".toList

def unclosedTokens : List Token :=
  [⟨.printWord, "print".toList, 1⟩, ⟨.opening, ['('], 1⟩, ⟨.number, ['1'], 1⟩]

/-- The word is found and refused, so exactly what may follow the number is named. -/
theorem expected_exact_unless_unfit_unclosed :
    Reader.read (Scan.ofText unclosedText) =
        .error (.unexpected (some "let".toList) [.plus, .closing] 2) ∧
      ∀ terminal, SyntaxError.Names [.plus, .closing] terminal ↔
        MayFollow unclosedTokens terminal := by
  have hread : Reader.read (Scan.ofText unclosedText) =
      .error (.unexpected (some "let".toList) [.plus, .closing] 2) := by
    decide +kernel
  obtain ⟨-, front, rest, tokens, hsplit, hreads, hobstacle, hexact, -⟩ :=
    expected_exact_unless_unfit none hread
  -- the word stands in one place of the text only
  have honly : ∀ n < 13, "let".toList <+: unclosedText.drop n → n = 9 := by decide +kernel
  have hlength : front.length = 9 := by
    have htotal : 12 = (front ++ rest).length := congrArg List.length hsplit
    rw [List.length_append] at htotal
    refine honly front.length (by omega) ?_
    rw [hsplit, List.drop_left]
    exact hobstacle.prefix_rest
  have hplace : "print (1\n".toList = front ∧ "let".toList = rest :=
    List.append_inj hsplit hlength.symm
  obtain ⟨rfl, rfl⟩ := hplace
  have hbegin : Progress.begin.stepAll? [] = some Progress.begin := rfl
  have hscan : Scan.ofText "print (1\n".toList = ⟨tokens, .endOfFile⟩ :=
    scanFrom_of_reads hbegin hreads
  have htokens : tokens = unclosedTokens := by
    have hexplicit : Scan.ofText "print (1\n".toList = ⟨unclosedTokens, .endOfFile⟩ := by
      decide +kernel
    exact congrArg Scan.tokens (hscan.symm.trans hexplicit)
  subst htokens
  exact ⟨hread, hexact (.inr (sought_iff.mpr (by decide +kernel)))⟩

def strayEquals : List Char := "print 1 =".toList

def strayEqualsBefore : List Token := [⟨.printWord, "print".toList, 1⟩, ⟨.number, ['1'], 1⟩]

/-- Nothing fits behind the number. A closing parenthesis is named, though none is open, and the end
of the text is not, though the text may end there. -/
theorem closing_named_without_opening :
    Scan.ofText strayEquals = ⟨strayEqualsBefore, .refused ['='] Mode.valueEnd.expected 1⟩ ∧
      Reader.read (Scan.ofText strayEquals) =
        .error (.unexpected (some ['=']) Mode.valueEnd.expected 1) ∧
      SyntaxError.Names Mode.valueEnd.expected .closing ∧
      ¬MayFollow strayEqualsBefore .closing ∧
      ¬SyntaxError.Names Mode.valueEnd.expected .endOfFile ∧
      MayFollow strayEqualsBefore .endOfFile := by
  have hprogress : ∃ progress, Progress.begin.stepAll? strayEqualsBefore = some progress ∧
      progress.forget.state.accepted = Terminal.statementStarts ++ [.plus, .endOfFile] :=
    ⟨_, rfl, rfl⟩
  obtain ⟨progress, hstep, haccepted⟩ := hprogress
  rw [SyntaxError.names_iff, SyntaxError.names_iff, mayFollow_iff_accepted hstep,
    mayFollow_iff_accepted hstep, haccepted]
  exact ⟨by decide +kernel, by decide +kernel, by decide, by decide, by decide, by decide⟩

end ScriptLoader.Script
