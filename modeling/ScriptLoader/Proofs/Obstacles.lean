import ScriptLoader.Proofs.Scanning

/-!
Where reading ends early. An error names a place of the text. What stands before that place can
still become a script, for every derivation that is under way can be completed. With the token that
is reported it cannot: no script goes on with a token of that text.
-/

namespace ScriptLoader.Script

open Grammar Lexeme

def Reader.readFrom (reader : Reader) (lastLine : Nat) (scan : Scan) :
    Except SyntaxError (List RawStatement) :=
  match reader.stepAll lastLine scan.tokens with
  | .error e => .error e
  | .ok (reader, lastLine) =>
    match scan.ending with
    | .invalid character line => .error (.invalidCharacter character line)
    | .refused text expected line => .error (.unexpected (some text) expected line)
    | .endOfFile =>
      match reader.finish with
      | .ok statements => .ok statements
      | .error expected => .error (.unexpected none expected lastLine)

theorem Reader.read_eq_readFrom (scan : Scan) : Reader.read scan = begin.readFrom 1 scan := rfl

theorem Reader.readFrom_cons (reader : Reader) (lastLine : Nat) (token : Token)
    (tokens : List Token) (ending : Ending) :
    reader.readFrom lastLine ⟨token :: tokens, ending⟩ =
      match reader.step token with
      | .ok next => next.readFrom token.line ⟨tokens, ending⟩
      | .error expected => .error (.unexpected (some token.text) expected token.line) := by
  unfold readFrom
  rw [stepAll]
  rcases reader.step token with expected | next <;> rfl

namespace Grammar

/-! ### The texts of terminals -/

inductive Spelled : Terminal → List Char → Prop
  | word {terminal : Terminal} {text : List Char} (word : word? terminal = some text) :
      Spelled terminal text
  | name {text : List Char} (identifier : IsIdentifier text) : Spelled .name text
  | number {text : List Char} (number : IsNumber text) : Spelled .number text
  | string {text : List Char} (string : IsString text) : Spelled .string text
  | mark {terminal : Terminal} {c : Char} (mark : mark? terminal = some c) : Spelled terminal [c]

theorem Taken.spelled {viable : Terminal → Prop} {terminal : Terminal} {text rest : List Char}
    (h : Taken viable terminal text rest) : Spelled terminal text := by
  cases h with
  | bare _ word _ => exact .word word
  | word _ word _ _ => exact .word word
  | name _ identifier _ _ => exact .name identifier
  | number _ number _ => exact .number number
  | string _ string => exact .string string
  | mark _ mark => exact .mark mark

/-- Where no name, number or string may come, a token is taken wherever its text stands. -/
theorem Spelled.taken {viable : Terminal → Prop} {terminal : Terminal} {text : List Char}
    (h : Spelled terminal text) (may : viable terminal) (hname : ¬viable .name)
    (hnumber : ¬viable .number) (hstring : ¬viable .string) (rest : List Char) :
    Taken viable terminal text rest := by
  cases h with
  | word word => exact .bare may word hname
  | name _ => exact (hname may).elim
  | number _ => exact (hnumber may).elim
  | string _ => exact (hstring may).elim
  | mark mark => exact .mark may mark

theorem operand?_eq_none {s : List Char} (h : operand? s = none) :
    number s = [] ∧ string s = [] ∧ identifier s = [] := by
  unfold operand? at h
  split at h
  · cases h
  · split at h
    · cases h
    · split at h
      · cases h
      · exact ⟨not_not.mp ‹_›, not_not.mp ‹_›, not_not.mp ‹_›⟩

theorem identifier_ne_nil {text : List Char} (h : IsIdentifier text) (rest : List Char) :
    identifier (text ++ rest) ≠ [] := by
  obtain ⟨first, others, rfl, hfirst, -⟩ := h
  rw [List.cons_append, identifier_cons hfirst]
  exact List.cons_ne_nil _ _

/-- Wherever the text of a terminal stands, there is an operand or a mark. -/
theorem Spelled.operand?_or_mark {terminal : Terminal} {text : List Char}
    (h : Spelled terminal text) (rest : List Char) :
    operand? (text ++ rest) ≠ none ∨ ∃ c, mark? terminal = some c ∧ text = [c] := by
  have hidentifier (h : IsIdentifier text) : operand? (text ++ rest) ≠ none :=
    fun hnone => identifier_ne_nil h rest (operand?_eq_none hnone).2.2
  cases h with
  | word word => exact .inl (hidentifier (isIdentifier_word word))
  | name identifier => exact .inl (hidentifier identifier)
  | number number =>
      refine .inl fun hnone => number.ne_nil (List.eq_nil_of_length_eq_zero ?_)
      have hle := length_le_number number rest
      rw [(operand?_eq_none hnone).1] at hle
      exact Nat.le_zero.mp hle
  | string string =>
      refine .inl fun hnone => ?_
      obtain ⟨hstring, hne⟩ := string_iff.mpr ⟨rest, rfl, string⟩
      exact hne (hstring.symm.trans (operand?_eq_none hnone).2.1)
  | mark mark => exact .inr ⟨_, mark, rfl⟩

/-- A token of a terminal that is looked for in a mode hides no other: where its text stands,
something is found. -/
theorem Spelled.find?_ne_none {mode : Mode} {terminal : Terminal} {text : List Char}
    (h : Spelled terminal text) (hmem : terminal ∈ admitted mode) (rest : List Char) :
    find? mode (text ++ rest) ≠ none := by
  have hfound {found : Terminal} {front back : List Char} (hsplit : text ++ rest = front ++ back)
      (taken : Taken (· ∈ admitted mode) found front back) : find? mode (text ++ rest) ≠ none := by
    rw [find?_iff.mpr ⟨back, hsplit, taken⟩]
    exact Option.some_ne_none _
  cases mode with
  | start => exact hfound rfl (h.taken hmem (by decide) (by decide) (by decide) rest)
  | equals => exact hfound rfl (h.taken hmem (by decide) (by decide) (by decide) rest)
  | valueEnd => exact hfound rfl (h.taken hmem (by decide) (by decide) (by decide) rest)
  | path =>
      have hterminal := List.mem_singleton.mp hmem
      subst hterminal
      cases h with
      | word word => cases word
      | string string => exact hfound rfl (.string hmem string)
      | mark mark => cases mark
  | target =>
      have hterminal := List.mem_singleton.mp hmem
      subst hterminal
      cases h with
      | word word => cases word
      | name identifier =>
          have hne := identifier_ne_nil identifier rest
          simp [find?, hne]
      | mark mark => cases mark
  | operand =>
      rcases h.operand?_or_mark rest with hne | ⟨c, hmark, rfl⟩
      · obtain ⟨found, hoperand⟩ := Option.ne_none_iff_exists'.mp hne
        simp [find?, hoperand]
      · exact hfound rfl (.mark hmem hmark)

theorem Spelled.any?_ne_none {terminal : Terminal} {text : List Char} (h : Spelled terminal text)
    (rest : List Char) : any? (text ++ rest) ≠ none := by
  rcases h.operand?_or_mark rest with hne | ⟨c, hmark, rfl⟩
  · obtain ⟨found, hoperand⟩ := Option.ne_none_iff_exists'.mp hne
    simp [any?, hoperand]
  · have hfound : Lexeme.mark? (c :: rest) = some (terminal, [c]) :=
      mark?_iff.mpr ⟨c, rest, hmark, rfl, rfl⟩
    simp [any?, hfound]

/-- What is reported where nothing fits the mode is the text of some token. -/
theorem exists_spelled_of_any? {s text : List Char} (h : any? s = some text) :
    ∃ terminal rest, s = text ++ rest ∧ Spelled terminal text := by
  obtain ⟨⟨terminal, found⟩, hfound, rfl⟩ := Option.map_eq_some_iff.mp h
  rcases Option.or_eq_some_iff.mp hfound with hoperand | ⟨-, hmark⟩
  · obtain ⟨-, rest, hsplit, taken⟩ := operand?_iff.mp hoperand
    exact ⟨terminal, rest, hsplit, taken.spelled⟩
  · obtain ⟨c, rest, hterminal, rfl, rfl⟩ := mark?_iff.mp hmark
    exact ⟨terminal, rest, rfl, .mark hterminal⟩

/-! ### Obstacles -/

/-- Behind these tokens, on this line and in front of the rest of the text, no script goes on, for
the reason that the error gives. -/
inductive Obstacle (tokens : List Token) (line : Nat) (rest : List Char) : SyntaxError → Prop
  /-- A token stands here. Whatever terminal its text may be one of, no script that begins with the
  tokens has that terminal next. -/
  | token {terminal : Terminal} {text others : List Char} {expected : List Terminal}
      (split : rest = text ++ others) (spelled : Spelled terminal text)
      (unviable : ∀ other, Spelled other text → ¬Viable tokens other) :
      Obstacle tokens line rest (.unexpected (some text) expected line)
  /-- No token begins with this character. -/
  | character {c : Char} {others : List Char} (split : rest = c :: others)
      (noToken : ∀ terminal text, text <+: rest → ¬Spelled terminal text) :
      Obstacle tokens line rest (.invalidCharacter c line)
  /-- The text is at its end, but its tokens are no script. The line is that of the last one. -/
  | endOfFile {earlier : List Token} {last : Token} {expected : List Terminal}
      (split : rest = []) (tokens_eq : tokens = earlier ++ [last])
      (underivable : ∀ tree : ScriptTree, tree.tokens ≠ tokens) :
      Obstacle tokens line rest (.unexpected none expected last.line)

def lastLine (tokens : List Token) : Nat :=
  (tokens.getLast?.map Token.line).getD 1

@[simp] theorem lastLine_concat (tokens : List Token) (token : Token) :
    lastLine (tokens ++ [token]) = token.line := by
  simp [lastLine]

section

variable {before : List Token} {progress : Progress}

/-- The reader refuses the token that was found. -/
theorem obstacle_of_unfit (h : Progress.begin.stepAll? before = some progress)
    {terminal : Terminal} {text rest : List Char}
    (taken : Taken (· ∈ admitted progress.forget.state.mode) terminal text rest)
    (hrefused : ¬Awaited progress.forget.state terminal) (expected : List Terminal) (line : Nat) :
    Obstacle before line (text ++ rest) (.unexpected (some text) expected line) := by
  refine .token rfl taken.spelled fun other hother hviable => hrefused ?_
  have hawaited := (viable_iff_awaited h other).mp hviable
  by_cases hmode : progress.forget.state.mode = .valueEnd
  · -- only words and marks are looked for here, so the text is that of one terminal only
    have hadmitted := hawaited.admitted
    rw [hmode] at hadmitted taken
    have hsame := hother.taken hadmitted (by decide) (by decide) (by decide) rest
    have hfind := find?_iff.mpr ⟨rest, rfl, taken⟩
    rw [find?_iff.mpr ⟨rest, rfl, hsame⟩] at hfind
    cases hfind
    exact hawaited
  · exact awaited_of_admitted hmode taken.viable

inductive Stop (before : List Token) (progress : Progress) (line : Nat) :
    List Char → SyntaxError → Prop
  /-- A token is found, and the reader does not take it in. -/
  | refused {terminal : Terminal} {text others : List Char}
      (taken : Taken (· ∈ admitted progress.forget.state.mode) terminal text others)
      (unawaited : ¬Awaited progress.forget.state terminal) :
      Stop before progress line (text ++ others)
        (.unexpected (some text) progress.forget.state.accepted line)
  /-- Nothing is found that is looked for. Something else stands here. -/
  | unfit {c : Char} {text others : List Char}
      (nothing : find? progress.forget.state.mode (c :: others) = none)
      (found : any? (c :: others) = some text) :
      Stop before progress line (c :: others)
        (.unexpected (some text) progress.forget.state.mode.expected line)
  /-- No token begins here. -/
  | character {c : Char} {others : List Char} (nothing : any? (c :: others) = none) :
      Stop before progress line (c :: others) (.invalidCharacter c line)
  /-- The text is at its end, and a statement is open. -/
  | unfinished (unfinished : progress.finish? = none) :
      Stop before progress line [] (.unexpected none progress.forget.state.accepted
        (lastLine before))

theorem stop_of_find?_none {c : Char} {rest : List Char}
    (hfind : find? progress.forget.state.mode (c :: rest) = none) {last line : Nat}
    {e : SyntaxError}
    (herror : progress.forget.readFrom last ⟨[], endingAt progress.forget.state.mode line c rest⟩ =
      .error e) : Stop before progress line (c :: rest) e := by
  rcases hany : any? (c :: rest) with _ | text
  · rw [endingAt, hany] at herror
    cases herror
    exact .character hany
  · rw [endingAt, hany] at herror
    cases herror
    exact .unfit hfind hany

theorem stop_of_end {line : Nat} {e : SyntaxError}
    (herror : progress.forget.readFrom (lastLine before) ⟨[], .endOfFile⟩ = .error e) :
    Stop before progress line [] e := by
  simp only [Reader.readFrom, Reader.stepAll, Progress.finish_forget] at herror
  rcases hfinish : progress.finish? with _ | tree
  · rw [hfinish] at herror
    cases herror
    exact .unfinished hfinish
  · rw [hfinish] at herror
    cases herror

/-- The text ends too early. -/
theorem obstacle_of_unfinished (h : Progress.begin.stepAll? before = some progress)
    (unfinished : progress.finish? = none) (expected : List Terminal) (line : Nat) :
    Obstacle before line [] (.unexpected none expected (lastLine before)) := by
  rcases List.eq_nil_or_concat before with rfl | ⟨earlier, last, rfl⟩
  · cases h
    cases unfinished
  · rw [List.concat_eq_append] at h ⊢
    rw [lastLine_concat]
    refine .endOfFile rfl rfl fun tree htree => ?_
    obtain ⟨next, hnext, hdone⟩ := Progress.exists_stepAll?_tokens tree
    rw [htree, h] at hnext
    cases hnext
    rw [unfinished] at hdone
    cases hdone

/-- Wherever reading stops, no script goes on. -/
theorem Stop.obstacle (h : Progress.begin.stepAll? before = some progress) {line : Nat}
    {rest : List Char} {e : SyntaxError} (stop : Stop before progress line rest e) :
    Obstacle before line rest e := by
  cases stop with
  | refused taken unawaited => exact obstacle_of_unfit h taken unawaited _ _
  | unfit nothing found =>
      obtain ⟨terminal, others, hsplit, hspelled⟩ := exists_spelled_of_any? found
      refine .token hsplit hspelled fun other hother hviable => ?_
      have hawaited := (viable_iff_awaited h other).mp hviable
      exact hother.find?_ne_none hawaited.admitted others (hsplit ▸ nothing)
  | character nothing =>
      refine .character rfl ?_
      rintro terminal text ⟨others, hsplit⟩ hspelled
      exact hspelled.any?_ne_none others (hsplit ▸ nothing)
  | unfinished unfinished => exact obstacle_of_unfinished h unfinished _ _

end

/-! ### Reading up to an obstacle -/

/-- A reading that fails takes in all tokens up to where it stops. What stands before that place
reads as these tokens also if the text ends there. -/
theorem exists_stop {before : List Token} {progress : Progress} {line : Nat} {s : List Char}
    {e : SyntaxError} (h : Progress.begin.stepAll? before = some progress)
    (herror : progress.forget.readFrom (lastLine before)
      (Scan.scanFrom progress.forget.state.mode line s) = .error e) :
    ∃ front rest tokens next, s = front ++ rest ∧ Reads before line front tokens ∧
      Progress.begin.stepAll? (before ++ tokens) = some next ∧
      tokens <+: (Scan.scanFrom progress.forget.state.mode line s).tokens ∧
      Stop (before ++ tokens) next (line + front.count '\n') rest e := by
  induction hlength : s.length using Nat.strongRecOn generalizing s before progress line with
  | ind length ih =>
      subst hlength
      obtain ⟨gap, rest, rfl, hgap, hends⟩ | hfinal := gap_cases s
      · rcases hfind : find? progress.forget.state.mode rest with _ | ⟨terminal, text⟩
        · obtain ⟨c, more, rfl, hsolid⟩ := hends
          rw [scanFrom_of_find?_none hgap hsolid hfind] at herror
          refine ⟨gap, _, [], progress, rfl, .done (.inl hgap), by rwa [List.append_nil],
            List.nil_prefix, ?_⟩
          rw [List.append_nil]
          exact stop_of_find?_none hfind herror
        · obtain ⟨later, rfl, taken⟩ := find?_iff.mp hfind
          obtain ⟨hsolid, hline⟩ := taken.endsGap
          rw [scanFrom_of_find? hgap hsolid hfind] at herror ⊢
          rw [Reader.readFrom_cons, Progress.step_forget] at herror
          have hstep := exists_step?_iff progress ⟨terminal, text, line + gap.count '\n'⟩
          rcases hnext : progress.step? ⟨terminal, text, line + gap.count '\n'⟩ with _ | next
          · -- the token is refused
            rw [hnext] at herror hstep
            cases herror
            refine ⟨gap, _, [], progress, rfl, .done (.inl hgap), by rwa [List.append_nil],
              List.nil_prefix, ?_⟩
            rw [List.append_nil]
            exact .refused taken fun hawaited => by simpa using hstep.mpr hawaited
          · rw [hnext] at herror
            have hviable := (taken_viable_iff h).mpr ⟨hstep.mp ⟨next, hnext⟩, taken⟩
            have hshorter : later.length < (gap ++ (text ++ later)).length := by
              obtain ⟨c, more, rfl, -⟩ := hsolid
              simp only [List.length_append, List.length_cons]
              omega
            have hlater : next.forget.readFrom
                (lastLine (before ++ [⟨terminal, text, line + gap.count '\n'⟩]))
                (Scan.scanFrom next.forget.state.mode (line + gap.count '\n') later) =
                  .error e := by
              rw [lastLine_concat, mode_step? hnext]
              exact herror
            obtain ⟨front, back, tokens, final, rfl, hreads, hfinal, hfront, hstop⟩ :=
              ih later.length hshorter (stepAll?_snoc h hnext) hlater rfl
            rw [mode_step? hnext] at hfront
            rw [List.append_assoc] at hfinal hstop
            have hcount : line + (gap ++ (text ++ front)).count '\n' =
                line + gap.count '\n' + front.count '\n' := by
              simp only [List.count_append, List.count_eq_zero_of_not_mem hline]
              omega
            refine ⟨gap ++ (text ++ front), back, _, final, by simp, .token hgap ?_ ?_, hfinal,
              List.cons_prefix_cons.mpr ⟨rfl, hfront⟩, ?_⟩
            · have hnothing : Apart [] := by decide
              have hcut := hviable.respaced hnothing
              rwa [List.append_nil] at hcut
            · rwa [line_of_oneLine hline]
            · rwa [hcount]
      · rw [scanFrom_of_finalGap hfinal] at herror
        refine ⟨s, [], [], progress, (List.append_nil s).symm, .done hfinal,
          by rwa [List.append_nil], List.nil_prefix, ?_⟩
        rw [List.append_nil]
        exact stop_of_end herror

/-- The place where a reading fails is an obstacle. -/
theorem exists_obstacle {before : List Token} {progress : Progress} {line : Nat} {s : List Char}
    {e : SyntaxError} (h : Progress.begin.stepAll? before = some progress)
    (herror : progress.forget.readFrom (lastLine before)
      (Scan.scanFrom progress.forget.state.mode line s) = .error e) :
    ∃ front rest tokens next, s = front ++ rest ∧ Reads before line front tokens ∧
      Progress.begin.stepAll? (before ++ tokens) = some next ∧
      tokens <+: (Scan.scanFrom progress.forget.state.mode line s).tokens ∧
      Obstacle (before ++ tokens) (line + front.count '\n') rest e := by
  obtain ⟨front, rest, tokens, next, hsplit, hreads, hnext, hfront, hstop⟩ := exists_stop h herror
  exact ⟨front, rest, tokens, next, hsplit, hreads, hnext, hfront, hstop.obstacle hnext⟩

/-! ### Completing what stands before an obstacle -/

/-- Every filler is found where the reader awaits it. -/
theorem taken_filler {mode : Mode} {line : Nat} {token : Token}
    (hmem : token ∈ Progress.fillers line) (hadmitted : token.terminal ∈ admitted mode) :
    Taken (· ∈ admitted mode) token.terminal token.text [] := by
  simp only [Progress.fillers, List.mem_cons, List.not_mem_nil, or_false] at hmem
  have hend : EndsIdentifier [] := fun c hc => by cases hc
  rcases hmem with rfl | rfl | rfl | rfl | rfl
  · refine .name hadmitted ⟨'x', [], rfl, rfl, fun c hc => by cases hc⟩ hend ?_
    intro terminal _ hword
    cases terminal <;> cases hword
  · exact .mark hadmitted rfl
  · by_cases hname : Terminal.name ∈ admitted mode
    · exact .word hadmitted rfl hname hend
    · exact .bare hadmitted rfl hname
  · exact .string hadmitted ⟨[], rfl, closing_nil rfl⟩
  · exact .mark hadmitted rfl

theorem separable_fillers {progress next : Progress} {tokens : List Token} {line : Nat}
    (h : progress.stepAll? tokens = some next) (hfillers : tokens ⊆ Progress.fillers line) :
    Separable progress.forget.state.mode tokens := by
  induction tokens generalizing progress with
  | nil => exact .nil
  | cons token rest ih =>
      obtain ⟨hmem, hrest⟩ := List.cons_subset.mp hfillers
      obtain ⟨middle, hstep, hlater⟩ := Option.bind_eq_some_iff.mp h
      have hawaited := (exists_step?_iff progress token).mp ⟨middle, hstep⟩
      refine .cons (taken_filler hmem hawaited.admitted) ?_
      rw [← mode_step? hstep]
      exact ih hlater hrest

theorem mode_stepAll? {progress next : Progress} {tokens : List Token}
    (h : progress.stepAll? tokens = some next) :
    next.forget.state.mode = progress.forget.state.mode.afterAll tokens := by
  induction tokens generalizing progress with
  | nil =>
      cases h
      rfl
  | cons token rest ih =>
      obtain ⟨middle, hstep, hlater⟩ := Option.bind_eq_some_iff.mp h
      rw [ih hlater, mode_step? hstep]
      rfl

/-- A text whose tokens begin a script can be continued to one that the reader accepts. -/
theorem exists_accepted_extension {s : List Char} {tokens : List Token} {progress : Progress}
    (hreads : Reads [] 1 s tokens) (h : Progress.begin.stepAll? tokens = some progress) :
    ∃ more raw, Reader.read (Scan.ofText (s ++ more)) = .ok raw := by
  let line := 1 + s.count '\n' + 1
  obtain ⟨after, final, tree, hfinal, hfinish, hfillers⟩ := progress.exists_completion line
  -- a line feed ends what may be open, then come the missing tokens, on one line
  have hnone : Progress.begin.stepAll? [] = some Progress.begin := rfl
  have hbegin : Scans .start 1 s tokens := scans_iff.mpr (scanFrom_of_reads hnone hreads)
  have hafter := (separable_fillers hfinal hfillers).scans_intercalate line
  have hsame : after.map (Token.mapLine fun _ => line) = after := by
    rw [List.map_congr_left, List.map_id]
    intro token htoken
    have hmem := hfillers htoken
    simp only [Progress.fillers, List.mem_cons, List.not_mem_nil, or_false] at hmem
    rcases hmem with rfl | rfl | rfl | rfl | rfl <;> rfl
  rw [hsame, mode_stepAll? h] at hafter
  have hscan : Scan.ofText _ = ⟨tokens ++ after, .endOfFile⟩ := scans_iff.mp (hbegin.append hafter)
  have htokens : tree.tokens = tokens ++ after := by
    rw [Progress.tokens_finish? hfinish, Progress.tokens_stepAll? hfinal,
      Progress.tokens_stepAll? h]
    rfl
  refine ⟨_, tree.statements, (read_iff _ _).mpr ⟨congrArg Scan.ending hscan, tree, ?_, rfl⟩⟩
  rw [htokens, hscan]

end Grammar

/-- Syntax errors are reported at the first point of no return. What stands before the place that
is reported can be continued to a text that is read; with the token that is reported, or the end of
the text, it cannot. The line is that of the place, and the fault names the file. -/
theorem syntaxError_at_obstacle (file : Option String) {s : List Char} {e : SyntaxError}
    (h : Reader.read (Scan.ofText s) = .error e) :
    parse file s = .error (.script ⟨file, some e.line⟩ (.syntaxError e.message)) ∧
      ∃ front rest tokens, s = front ++ rest ∧
        Reads [] 1 front tokens ∧ tokens <+: (Scan.ofText s).tokens ∧
        (∃ more raw, Reader.read (Scan.ofText (front ++ more)) = .ok raw) ∧
        Obstacle tokens (1 + front.count '\n') rest e := by
  constructor
  · simp only [parse, readStatements, h]
    rfl
  · have hbegin : Progress.begin.stepAll? [] = some Progress.begin := rfl
    obtain ⟨front, rest, tokens, progress, hsplit, hreads, hprogress, hfront, hobstacle⟩ :=
      exists_obstacle hbegin h
    exact ⟨front, rest, tokens, hsplit, hreads, hfront,
      exists_accepted_extension hreads hprogress, hobstacle⟩

/-- An open parenthesis, and a word that begins a statement on the next line. -/
theorem syntaxError_unclosed :
    Reader.read (Scan.ofText "print (a ; b\nprint c".toList) =
        .error (.unexpected (some "print".toList) [.plus, .closing] 2) ∧
      parse (some "/a.il") "print (a ; b\nprint c".toList =
        .error (.script ⟨some "/a.il", some 2⟩ (.syntaxError
          "Unexpected 'print'. Expected one of: a closing parenthesis ')', a plus sign '+'.")) ∧
      ∃ front rest tokens, "print (a ; b\nprint c".toList = front ++ rest ∧
        Reads [] 1 front tokens ∧
        tokens <+: (Scan.ofText "print (a ; b\nprint c".toList).tokens ∧
        (∃ more raw, Reader.read (Scan.ofText (front ++ more)) = .ok raw) ∧
        Obstacle tokens (1 + front.count '\n') rest
          (.unexpected (some "print".toList) [.plus, .closing] 2) := by
  have hread : Reader.read (Scan.ofText "print (a ; b\nprint c".toList) =
      .error (.unexpected (some "print".toList) [.plus, .closing] 2) := by
    decide +kernel
  have hmessage : SyntaxError.message (.unexpected (some "print".toList) [.plus, .closing] 2) =
      "Unexpected 'print'. Expected one of: a closing parenthesis ')', a plus sign '+'." := by
    have hlabels : SyntaxError.labels [.plus, .closing] =
        ["a closing parenthesis ')'", "a plus sign '+'"] := by
      have horder : Terminal.closing.label < Terminal.plus.label := by decide +kernel
      rw [SyntaxError.labels, List.map_cons, List.map_cons, List.map_nil, List.mergeSort]
      show List.merge (List.mergeSort [Terminal.plus.label] _)
        (List.mergeSort [Terminal.closing.label] _) _ = _
      rw [List.mergeSort_singleton, List.mergeSort_singleton, List.cons_merge_cons,
        decide_eq_true horder, if_neg (by decide), List.merge_right]
      rfl
    unfold SyntaxError.message
    simp only
    rw [hlabels, String.ofList_toList]
    decide +kernel
  obtain ⟨hparse, hobstacle⟩ := syntaxError_at_obstacle (some "/a.il") hread
  rw [hmessage] at hparse
  exact ⟨hread, hparse, hobstacle⟩

end ScriptLoader.Script
