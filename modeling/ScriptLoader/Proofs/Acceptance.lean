import Mathlib.Data.Set.Subsingleton
import ScriptLoader.Proofs.Lexicon
import ScriptLoader.Proofs.Progress
import ScriptLoader.Script.Parse

/-!
Which texts are scripts. A text is read from left to right: gaps are skipped, and every token is
taken of the terminals that some script goes on with after the tokens before it. The text is a
script exactly if the tokens that are read so are those of a derivation, and then what parsing gives
is what that derivation stands for.

Behind a value the scanner looks for more than can follow, a closing parenthesis without an opening
one for instance. What it finds there and no script goes on with is refused by the reader.
-/

namespace ScriptLoader.Script.Grammar

open Lexeme

/-! ### Gaps -/

/-- Blanks, and comments with the line feeds that end them. -/
inductive Gap : List Char → Prop
  | nil : Gap []
  | blank {c : Char} {rest : List Char} (h : isBlank c = true) (later : Gap rest) :
      Gap (c :: rest)
  | comment {body rest : List Char} (h : '\n' ∉ body) (later : Gap rest) :
      Gap (';' :: (body ++ '\n' :: rest))

/-- A gap up to the end of the text, where a comment needs no line feed. -/
def FinalGap (s : List Char) : Prop :=
  Gap s ∨ ∃ gap body, s = gap ++ ';' :: body ∧ Gap gap ∧ '\n' ∉ body

def Solid (c : Char) : Prop :=
  isBlank c = false ∧ c ≠ ';'

def EndsGap (s : List Char) : Prop :=
  ∃ c rest, s = c :: rest ∧ Solid c

/-- Before each token there is a gap, and one more after the last. -/
theorem gap_cases (s : List Char) :
    (∃ gap rest, s = gap ++ rest ∧ Gap gap ∧ EndsGap rest) ∨ FinalGap s := by
  induction hlength : s.length using Nat.strongRecOn generalizing s with
  | ind length ih =>
      subst hlength
      rcases s with _ | ⟨c, s⟩
      · exact .inr (.inl .nil)
      · rcases hblank : isBlank c with _ | _
        · by_cases hcomment : c = ';'
          · -- the comment runs to the next line feed, if there is one
            subst hcomment
            by_cases hline : '\n' ∈ s
            · obtain ⟨body, rest, rfl, hbody⟩ := List.eq_append_cons_of_mem hline
              obtain ⟨gap, later, rfl, hgap, hends⟩ | ⟨hgap⟩ | ⟨gap, last, rfl, hgap, hlast⟩ :=
                ih rest.length (by simp; omega) rest rfl
              · exact .inl ⟨_, later, by simp, .comment hbody hgap, hends⟩
              · exact .inr (.inl (.comment hbody hgap))
              · exact .inr (.inr ⟨_, last, by simp, .comment hbody hgap, hlast⟩)
            · exact .inr (.inr ⟨[], s, rfl, .nil, hline⟩)
          · exact .inl ⟨[], c :: s, rfl, .nil, c, s, rfl, hblank, hcomment⟩
        · obtain ⟨gap, later, rfl, hgap, hends⟩ | hgap | ⟨gap, last, rfl, hgap, hlast⟩ :=
            ih s.length (by simp) s rfl
          · exact .inl ⟨c :: gap, later, rfl, .blank hblank hgap, hends⟩
          · exact .inr (.inl (.blank hblank hgap))
          · exact .inr (.inr ⟨c :: gap, last, rfl, .blank hblank hgap, hlast⟩)

@[simp] theorem skipGap_comment {body : List Char} (h : '\n' ∉ body) (line : Nat)
    (rest : List Char) :
    skipGap true line (body ++ '\n' :: rest) = skipGap false (line + 1) rest := by
  induction body with
  | nil => rfl
  | cons c body ih =>
      have hc : c ≠ '\n' := fun heq => h (by simp [heq])
      rw [List.cons_append, skipGap, if_neg hc]
      simpa using ih fun hmem => h (List.mem_cons_of_mem _ hmem)

@[simp] theorem skipGap_lastComment {body : List Char} (h : '\n' ∉ body) (line : Nat) :
    skipGap true line body = (line, []) := by
  induction body with
  | nil => rfl
  | cons c body ih =>
      have hc : c ≠ '\n' := fun heq => h (by simp [heq])
      rw [skipGap, if_neg hc]
      simpa using ih fun hmem => h (List.mem_cons_of_mem _ hmem)

/-- A gap is skipped whatever follows it. -/
theorem skipGap_gap {gap : List Char} (h : Gap gap) (line : Nat) (rest : List Char) :
    skipGap false line (gap ++ rest) = skipGap false (line + gap.count '\n') rest := by
  induction h generalizing line with
  | nil => rfl
  | @blank c others hblank _ ih =>
      rw [List.cons_append, skipGap]
      by_cases hc : c = '\n'
      · rw [if_pos hc, ih, hc, List.count_cons_self]
        congr 1
        omega
      · rw [if_neg hc, if_pos (by simp [hblank]), ih, List.count_cons_of_ne hc]
  | @comment body others hbody _ ih =>
      rw [List.cons_append, List.append_assoc, List.cons_append, skipGap, if_neg (by decide),
        if_neg (by decide), if_pos rfl, skipGap_comment hbody, ih]
      congr 1
      simp [List.count_eq_zero_of_not_mem hbody]
      omega

theorem skipGap_of_endsGap {s : List Char} (h : EndsGap s) (line : Nat) :
    skipGap false line s = (line, s) := by
  obtain ⟨c, rest, rfl, hblank, hcomment⟩ := h
  have hc : c ≠ '\n' := by
    rintro rfl
    cases hblank
  rw [skipGap, if_neg hc, if_neg (by simp [hblank]), if_neg hcomment]

theorem skipGap_finalGap {s : List Char} (h : FinalGap s) (line : Nat) :
    (skipGap false line s).2 = [] := by
  rcases h with h | ⟨gap, body, rfl, h, hbody⟩
  · have hskip := skipGap_gap h line []
    rw [List.append_nil] at hskip
    rw [hskip]
    rfl
  · rw [skipGap_gap h, skipGap, if_neg (by decide), if_neg (by decide), if_pos rfl,
      skipGap_lastComment hbody]

/-! ### The texts of tokens -/

theorem solid_of_isNamePart {c : Char} (h : isNamePart c = true) : Solid c := by
  constructor
  · rcases hblank : isBlank c with _ | _
    · rfl
    · simp only [isBlank, Bool.or_eq_true, beq_iff_eq] at hblank
      rcases hblank with (((rfl | rfl) | rfl) | rfl) | rfl <;> cases h
  · rintro rfl
    cases h

theorem solid_of_isFigure {c : Char} (h : IsFigure c) : Solid c := by
  rcases h with h | (rfl | rfl) | rfl | rfl | rfl
  · exact solid_of_isNamePart (by rw [isNamePart, h, Bool.or_true])
  all_goals exact ⟨rfl, by decide⟩

theorem Solid.ne_lineFeed {c : Char} (h : Solid c) : c ≠ '\n' := by
  rintro rfl
  cases h.1

theorem solid_of_isIdentifier {text : List Char} (h : IsIdentifier text) :
    text ≠ [] ∧ ∀ c ∈ text, Solid c := by
  obtain ⟨first, others, rfl, hfirst, hothers⟩ := h
  refine ⟨by simp, fun c hc => solid_of_isNamePart ?_⟩
  rcases List.mem_cons.mp hc with rfl | hc
  · rw [isNamePart, hfirst, Bool.true_or]
  · exact hothers c hc

theorem endsGap_of_solid {text : List Char} (hne : text ≠ []) (h : ∀ c ∈ text, Solid c) :
    EndsGap text ∧ '\n' ∉ text := by
  refine ⟨?_, fun hmem => (h _ hmem).ne_lineFeed rfl⟩
  obtain ⟨c, rest, rfl⟩ := List.exists_cons_of_ne_nil hne
  exact ⟨c, rest, rfl, h c List.mem_cons_self⟩

/-- Gaps end where tokens begin, and tokens contain no line feed. -/
theorem Taken.endsGap {viable : Terminal → Prop} {terminal : Terminal} {text rest : List Char}
    (h : Taken viable terminal text rest) : EndsGap text ∧ '\n' ∉ text := by
  have hidentifier (h : IsIdentifier text) : EndsGap text ∧ '\n' ∉ text := by
    obtain ⟨hne, hsolid⟩ := solid_of_isIdentifier h
    exact endsGap_of_solid hne hsolid
  cases h with
  | bare _ word _ => exact hidentifier (isIdentifier_word word)
  | word _ word _ _ => exact hidentifier (isIdentifier_word word)
  | name _ identifier _ _ => exact hidentifier identifier
  | number _ number _ =>
      exact endsGap_of_solid number.ne_nil fun c hc => solid_of_isFigure (number.figures c hc)
  | string _ string =>
      obtain ⟨body, rfl, closing⟩ := string
      refine ⟨⟨_, _, rfl, rfl, by decide⟩, ?_⟩
      simp [closing.oneLine]
  | @mark _ c _ _ mark =>
      refine endsGap_of_solid (by simp) fun d hd => ?_
      rw [List.mem_singleton.mp hd]
      cases terminal <;> cases mark <;> exact ⟨rfl, by decide⟩

/-! ### Scanning -/

theorem scanFrom_of_finalGap {s : List Char} (h : FinalGap s) (mode : Mode) (line : Nat) :
    Scan.scanFrom mode line s = ⟨[], .endOfFile⟩ := by
  have hskip := skipGap_finalGap h line
  rw [Scan.scanFrom]
  split
  · rfl
  · rename_i hcons
    rw [hskip] at hcons
    cases hcons

def endingAt (mode : Mode) (line : Nat) (c : Char) (rest : List Char) : Ending :=
  match any? (c :: rest) with
  | some text => .refused text mode.expected line
  | none => .invalid c line

/-- One step of scanning, behind a gap: what is found becomes a token, and without anything found
the end is not reached. -/
theorem scanFrom_of_skipGap {s rest : List Char} {mode : Mode} {line found : Nat} {c : Char}
    (hskip : skipGap false line s = (found, c :: rest)) :
    (∀ terminal first more, find? mode (c :: rest) = some (terminal, first :: more) →
      Scan.scanFrom mode line s =
        ⟨⟨terminal, first :: more, found⟩ ::
          (Scan.scanFrom (mode.after terminal) found (rest.drop more.length)).tokens,
          (Scan.scanFrom (mode.after terminal) found (rest.drop more.length)).ending⟩) ∧
    (find? mode (c :: rest) = none →
      Scan.scanFrom mode line s = ⟨[], endingAt mode found c rest⟩) := by
  rw [Scan.scanFrom]
  split
  · rename_i hnil
    rw [hskip] at hnil
    cases hnil
  · rename_i d others hcons
    rw [hskip] at hcons
    cases hcons
    constructor
    · intro terminal first more hfind
      simp only [hskip, hfind]
    · intro hfind
      simp only [hskip, hfind, endingAt]
      rcases any? (c :: rest) with _ | text <;> rfl

theorem scanFrom_of_find? {gap text rest : List Char} {mode : Mode} {terminal : Terminal}
    (hgap : Gap gap) (hends : EndsGap text)
    (hfind : find? mode (text ++ rest) = some (terminal, text)) (line : Nat) :
    Scan.scanFrom mode line (gap ++ (text ++ rest)) =
      ⟨⟨terminal, text, line + gap.count '\n'⟩ ::
        (Scan.scanFrom (mode.after terminal) (line + gap.count '\n') rest).tokens,
        (Scan.scanFrom (mode.after terminal) (line + gap.count '\n') rest).ending⟩ := by
  obtain ⟨c, more, rfl, hsolid⟩ := hends
  have hskip : skipGap false line (gap ++ (c :: more ++ rest)) =
      (line + gap.count '\n', c :: (more ++ rest)) := by
    rw [skipGap_gap hgap]
    exact skipGap_of_endsGap ⟨c, _, rfl, hsolid⟩ _
  rw [(scanFrom_of_skipGap hskip).1 terminal c more hfind, List.drop_left]

theorem scanFrom_of_find?_none {gap rest : List Char} {mode : Mode} {c : Char} (hgap : Gap gap)
    (hsolid : Solid c) (hfind : find? mode (c :: rest) = none) (line : Nat) :
    Scan.scanFrom mode line (gap ++ c :: rest) =
      ⟨[], endingAt mode (line + gap.count '\n') c rest⟩ := by
  have hskip := skipGap_gap hgap line (c :: rest)
  rw [skipGap_of_endsGap ⟨c, rest, rfl, hsolid⟩] at hskip
  exact (scanFrom_of_skipGap hskip).2 hfind

theorem ending_of_find?_none {gap rest : List Char} {mode : Mode} (hgap : Gap gap)
    (hends : EndsGap rest) (hfind : find? mode rest = none) (line : Nat) :
    (Scan.scanFrom mode line (gap ++ rest)).ending ≠ .endOfFile := by
  obtain ⟨c, more, rfl, hsolid⟩ := hends
  rw [scanFrom_of_find?_none hgap hsolid hfind, endingAt]
  rcases any? (c :: more) with _ | text <;> simp

/-! ### The terminals that a state goes on with -/

def Awaited (state : Reader.State) (terminal : Terminal) : Prop :=
  terminal ∈ state.accepted ∧ terminal ≠ .endOfFile

theorem exists_step?_iff (progress : Progress) (token : Token) :
    (∃ next, progress.step? token = some next) ↔
      Awaited progress.forget.state token.terminal := by
  rw [Awaited, ← step_ok_iff, Progress.step_forget]
  rcases progress.step? token with _ | next
  · simp
  · simp

theorem viable_iff_awaited {before : List Token} {progress : Progress}
    (h : Progress.begin.stepAll? before = some progress) (terminal : Terminal) :
    Viable before terminal ↔ Awaited progress.forget.state terminal := by
  rw [Progress.viable_iff h]
  constructor
  · rintro ⟨token, next, rfl, hstep⟩
    exact (exists_step?_iff progress token).mp ⟨next, hstep⟩
  · intro hawaited
    obtain ⟨next, hstep⟩ := (exists_step?_iff progress ⟨terminal, [], 0⟩).mpr hawaited
    exact ⟨⟨terminal, [], 0⟩, next, rfl, hstep⟩

theorem endOfFile_not_admitted (mode : Mode) : Terminal.endOfFile ∉ admitted mode := by
  cases mode <;> decide

/-- What a state takes in is looked for in its mode. -/
theorem Awaited.admitted {state : Reader.State} {terminal : Terminal}
    (h : Awaited state terminal) : terminal ∈ admitted state.mode := by
  obtain ⟨hmem, hend⟩ := h
  have hfront {starts others : List Terminal} (hmem : terminal ∈ starts ++ others ++ [.endOfFile]) :
      terminal ∈ starts ++ others := by
    rcases List.mem_append.mp hmem with hmem | hmem
    · exact hmem
    · exact (hend (List.mem_singleton.mp hmem)).elim
  cases state with
  | start => exact @hfront Terminal.statementStarts [] hmem
  | value context sum =>
      obtain ⟨head, _ | ⟨pending, outside⟩⟩ := context
      · rcases List.mem_append.mp (@hfront Terminal.statementStarts [.plus] hmem) with hmem | hmem
        · exact List.mem_append_left _ hmem
        · exact List.mem_append_right _ (List.mem_cons.mpr (.inl (List.mem_singleton.mp hmem)))
      · exact List.mem_append_right _ hmem
  | called request => exact List.mem_append_left _ (@hfront Terminal.statementStarts [] hmem)
  | _ => exact hmem

/-- Behind a value more is looked for than the state goes on with; elsewhere there is no
difference. -/
theorem awaited_of_admitted {state : Reader.State} (hmode : state.mode ≠ .valueEnd)
    {terminal : Terminal} (hmem : terminal ∈ admitted state.mode) : Awaited state terminal := by
  refine ⟨?_, fun hend => endOfFile_not_admitted _ (hend ▸ hmem)⟩
  cases state with
  | start => exact List.mem_append_left _ hmem
  | value context sum => exact (hmode rfl).elim
  | called request => exact (hmode rfl).elim
  | _ => exact hmem

/-- Behind a value, of the words and marks that are looked for, those are taken that the state goes
on with. -/
theorem taken_awaited_valueEnd {state : Reader.State} (hmode : state.mode = .valueEnd)
    {terminal : Terminal} {text rest : List Char} :
    Taken (Awaited state) terminal text rest ↔
      Awaited state terminal ∧ Taken (· ∈ admitted state.mode) terminal text rest := by
  have hnone {other : Terminal} (h : other ∉ admitted .valueEnd) : ¬Awaited state other :=
    fun hother => h (hmode ▸ hother.admitted)
  rw [hmode, taken_iff (hnone (by decide)) (hnone (by decide)) (hnone (by decide)),
    taken_iff (by decide) (by decide) (by decide)]
  constructor
  · rintro ⟨may, htext⟩
    exact ⟨may, hmode ▸ may.admitted, htext⟩
  · rintro ⟨may, -, htext⟩
    exact ⟨may, htext⟩

/-- What is looked for in a mode and taken in by the state is what is taken of the terminals that
the state goes on with. -/
theorem taken_awaited_iff (state : Reader.State) {terminal : Terminal} {text rest : List Char} :
    Taken (Awaited state) terminal text rest ↔
      Awaited state terminal ∧ Taken (· ∈ admitted state.mode) terminal text rest := by
  by_cases hmode : state.mode = .valueEnd
  · exact taken_awaited_valueEnd hmode
  · have heq : Awaited state = (· ∈ admitted state.mode) :=
      funext fun other => propext ⟨Awaited.admitted, awaited_of_admitted hmode⟩
    rw [← heq]
    exact ⟨fun taken => ⟨taken.viable, taken⟩, And.right⟩

theorem mode_step {reader next : Reader} {token : Token} (h : reader.step token = .ok next) :
    next.state.mode = reader.state.mode.after token.terminal := by
  obtain ⟨complete, state⟩ := reader
  obtain ⟨terminal, text, line⟩ := token
  cases state with
  | path inside safe word =>
      rcases inside with _ | ⟨context, pending⟩ <;> cases terminal <;> cases h <;> rfl
  | value context sum =>
      obtain ⟨head, _ | ⟨pending, outside⟩⟩ := context <;> cases terminal <;> cases h <;> rfl
  | _ => cases terminal <;> cases h <;> rfl

/-! ### Reading a text -/

/-- Behind some tokens, and from a line on, the text reads as these tokens. Each of them is taken of
the terminals that some script goes on with after those before it; a token's line is the one on
which it begins. -/
inductive Reads : List Token → Nat → List Char → List Token → Prop
  | done {before : List Token} {line : Nat} {s : List Char} (final : FinalGap s) :
      Reads before line s []
  | token {before tokens : List Token} {line : Nat} {gap text rest : List Char}
      {terminal : Terminal} (between : Gap gap)
      (taken : Taken (Viable before) terminal text rest)
      (later : Reads (before ++ [⟨terminal, text, line + gap.count '\n'⟩])
        (line + (gap ++ text).count '\n') rest tokens) :
      Reads before line (gap ++ (text ++ rest)) (⟨terminal, text, line + gap.count '\n'⟩ :: tokens)

theorem taken_viable_iff {before : List Token} {progress : Progress}
    (h : Progress.begin.stepAll? before = some progress) {terminal : Terminal}
    {text rest : List Char} :
    Taken (Viable before) terminal text rest ↔
      Awaited progress.forget.state terminal ∧
        Taken (· ∈ admitted progress.forget.state.mode) terminal text rest := by
  have heq : Viable before = Awaited progress.forget.state :=
    funext fun other => propext (viable_iff_awaited h other)
  rw [heq, taken_awaited_iff]

theorem mode_step? {progress next : Progress} {token : Token}
    (h : progress.step? token = some next) :
    next.forget.state.mode = progress.forget.state.mode.after token.terminal := by
  have hstep := Progress.step_forget progress token
  rw [h] at hstep
  exact mode_step hstep

theorem stepAll?_snoc {before : List Token} {progress next : Progress} {token : Token}
    (h : Progress.begin.stepAll? before = some progress)
    (hstep : progress.step? token = some next) :
    Progress.begin.stepAll? (before ++ [token]) = some next := by
  rw [Progress.stepAll?_append, h, Option.bind_some]
  simp [Progress.stepAll?, hstep]

theorem line_of_oneLine {gap text : List Char} (h : '\n' ∉ text) (line : Nat) :
    line + (gap ++ text).count '\n' = line + gap.count '\n' := by
  rw [List.count_append, List.count_eq_zero_of_not_mem h, Nat.add_zero]

/-- What is scanned to the end, and taken in by the reader, is what the text reads as. -/
theorem reads_of_scanFrom {s : List Char} {before : List Token} {progress final : Progress}
    {line : Nat} (h : Progress.begin.stepAll? before = some progress)
    (hending : (Scan.scanFrom progress.forget.state.mode line s).ending = .endOfFile)
    (hread : progress.stepAll? (Scan.scanFrom progress.forget.state.mode line s).tokens =
      some final) :
    Reads before line s (Scan.scanFrom progress.forget.state.mode line s).tokens := by
  induction hlength : s.length using Nat.strongRecOn generalizing s before progress line with
  | ind length ih =>
      subst hlength
      obtain ⟨gap, rest, rfl, hgap, hends⟩ | hfinal := gap_cases s
      · rcases hfind : find? progress.forget.state.mode rest with _ | ⟨terminal, text⟩
        · exact (ending_of_find?_none hgap hends hfind line hending).elim
        · obtain ⟨later, rfl, taken⟩ := find?_iff.mp hfind
          obtain ⟨hsolid, hline⟩ := taken.endsGap
          have hshorter : later.length < (gap ++ (text ++ later)).length := by
            obtain ⟨c, more, rfl, -⟩ := hsolid
            simp only [List.length_append, List.length_cons]
            omega
          rw [scanFrom_of_find? hgap hsolid hfind] at hending hread ⊢
          -- the reader takes the token in, so its terminal is one that a script goes on with
          obtain ⟨next, hstep, hnext⟩ := Option.bind_eq_some_iff.mp hread
          have hawaited := (exists_step?_iff progress _).mp ⟨next, hstep⟩
          refine .token hgap ((taken_viable_iff h).mpr ⟨hawaited, taken⟩) ?_
          have hmode := mode_step? hstep
          rw [line_of_oneLine hline]
          simp only at hending hnext ⊢
          rw [← hmode] at hending hnext ⊢
          exact ih later.length hshorter (stepAll?_snoc h hstep) hending hnext rfl
      · rw [scanFrom_of_finalGap hfinal]
        exact .done hfinal

theorem scanFrom_of_reads {s : List Char} {before tokens : List Token} {progress : Progress}
    {line : Nat} (h : Progress.begin.stepAll? before = some progress)
    (hreads : Reads before line s tokens) :
    Scan.scanFrom progress.forget.state.mode line s = ⟨tokens, .endOfFile⟩ := by
  induction hreads generalizing progress with
  | done final => exact scanFrom_of_finalGap final _ _
  | @token before tokens line gap text rest terminal between taken later ih =>
      obtain ⟨hsolid, hline⟩ := taken.endsGap
      obtain ⟨hawaited, hadmitted⟩ := (taken_viable_iff h).mp taken
      have hfind := find?_iff.mpr ⟨rest, rfl, hadmitted⟩
      obtain ⟨next, hstep⟩ :=
        (exists_step?_iff progress ⟨terminal, text, line + gap.count '\n'⟩).mpr hawaited
      have hrest := ih (stepAll?_snoc h hstep)
      rw [line_of_oneLine hline, mode_step? hstep] at hrest
      rw [scanFrom_of_find? between hsolid hfind, hrest]

/-! ### Parsing -/

theorem stepAll_forget (progress : Progress) (line : Nat) (tokens : List Token)
    (reader : Reader) :
    (∃ last, progress.forget.stepAll line tokens = .ok (reader, last)) ↔
      ∃ next, progress.stepAll? tokens = some next ∧ next.forget = reader := by
  induction tokens generalizing progress line with
  | nil => simp [Reader.stepAll, Progress.stepAll?]
  | cons token rest ih =>
      rw [Reader.stepAll, Progress.step_forget, Progress.stepAll?]
      rcases progress.step? token with _ | next
      · simp
      · exact ih next token.line

/-- The reader gives statements exactly if scanning came to the end and the tokens are those of a
derivation of these statements. -/
theorem read_iff (scan : Scan) (raw : List RawStatement) :
    Reader.read scan = .ok raw ↔
      scan.ending = .endOfFile ∧
        ∃ tree : ScriptTree, tree.tokens = scan.tokens ∧ tree.statements = raw := by
  constructor
  · intro h
    unfold Reader.read at h
    split at h
    · cases h
    · rename_i reader last hstep
      obtain ⟨next, hnext, rfl⟩ :=
        (stepAll_forget Progress.begin 1 scan.tokens reader).mp ⟨last, hstep⟩
      split at h
      · cases h
      · cases h
      · rename_i hending
        rw [Progress.finish_forget] at h
        rcases hfinish : next.finish? with _ | tree
        · rw [hfinish] at h
          cases h
        · rw [hfinish] at h
          cases h
          refine ⟨hending, tree, ?_, rfl⟩
          exact (Progress.tokens_finish? hfinish).trans (Progress.tokens_stepAll? hnext)
  · rintro ⟨hending, tree, htokens, rfl⟩
    obtain ⟨next, hnext, hfinish⟩ := Progress.exists_stepAll?_tokens tree
    rw [htokens] at hnext
    obtain ⟨last, hstep⟩ :=
      (stepAll_forget Progress.begin 1 scan.tokens next.forget).mpr ⟨next, hnext, rfl⟩
    have hbegin : Reader.begin.stepAll 1 scan.tokens = .ok (next.forget, last) := hstep
    simp only [Reader.read, hbegin, hending, Progress.finish_forget, hfinish]

/-- A text reads as the tokens of a derivation exactly if that is what scanning it gives. -/
theorem reads_tokens_iff (s : List Char) (tree : ScriptTree) :
    Reads [] 1 s tree.tokens ↔ Scan.ofText s = ⟨tree.tokens, .endOfFile⟩ := by
  have hbegin : Progress.begin.stepAll? [] = some Progress.begin := rfl
  constructor
  · exact scanFrom_of_reads hbegin
  · intro hscan
    obtain ⟨next, hnext, -⟩ := Progress.exists_stepAll?_tokens tree
    have hfrom : Scan.scanFrom Progress.begin.forget.state.mode 1 s =
        ⟨tree.tokens, .endOfFile⟩ := hscan
    have hending : (Scan.scanFrom Progress.begin.forget.state.mode 1 s).ending = .endOfFile := by
      rw [hfrom]
    have hread : Progress.begin.stepAll?
        (Scan.scanFrom Progress.begin.forget.state.mode 1 s).tokens = some next := by
      rw [hfrom]
      exact hnext
    have hreads := reads_of_scanFrom hbegin hending hread
    rwa [hfrom] at hreads

theorem read_ofText_iff (s : List Char) (raw : List RawStatement) :
    Reader.read (Scan.ofText s) = .ok raw ↔
      ∃ tree : ScriptTree, Reads [] 1 s tree.tokens ∧ tree.statements = raw := by
  rw [read_iff]
  constructor
  · rintro ⟨hending, tree, htokens, hstatements⟩
    refine ⟨tree, (reads_tokens_iff s tree).mpr ?_, hstatements⟩
    rw [htokens, ← hending]
  · rintro ⟨tree, hreads, hstatements⟩
    rw [(reads_tokens_iff s tree).mp hreads]
    exact ⟨rfl, tree, rfl, hstatements⟩

theorem readStatements_iff (s : List Char) (statements : List (Statement Numeral CodePoints)) :
    readStatements s = .ok statements ↔
      ∃ raw, Reader.read (Scan.ofText s) = .ok raw ∧ Statement.decodeAll raw = .ok statements := by
  unfold readStatements
  rcases Reader.read (Scan.ofText s) with error | raw
  · simp
  · simp

theorem parse_iff (file : Option String) (s : List Char) (script : Script) :
    parse file s = .ok script ↔
      script.file = file ∧ readStatements s = .ok script.statements := by
  obtain ⟨file', statements⟩ := script
  unfold parse
  rcases readStatements s with error | found
  · simp
  · simp [eq_comm]

/-- Parsing accepts exactly the grammar. The reader gives statements for a text exactly if the text
reads as the tokens of a derivation of these statements; there is at most one such derivation; and a
text gives a script exactly if it has a derivation and the literals in it can be decoded. -/
theorem parsing_accepts_grammar (s : List Char) :
    (∀ raw, Reader.read (Scan.ofText s) = .ok raw ↔
      ∃ tree : ScriptTree, Reads [] 1 s tree.tokens ∧ tree.statements = raw) ∧
    {tree : ScriptTree | Reads [] 1 s tree.tokens}.Subsingleton ∧
    ∀ file script, parse file s = .ok script ↔
      ∃ tree : ScriptTree, Reads [] 1 s tree.tokens ∧ script.file = file ∧
        Statement.decodeAll tree.statements = .ok script.statements := by
  refine ⟨read_ofText_iff s, ?_, ?_⟩
  · intro tree htree other hother
    have hscan := (reads_tokens_iff s tree).mp htree
    rw [(reads_tokens_iff s other).mp hother, Scan.mk.injEq] at hscan
    exact ScriptTree.tokens_injective hscan.1.symm
  · intro file script
    rw [parse_iff, readStatements_iff]
    constructor
    · rintro ⟨hfile, raw, hread, hdecode⟩
      obtain ⟨tree, hreads, rfl⟩ := (read_ofText_iff s raw).mp hread
      exact ⟨tree, hreads, hfile, hdecode⟩
    · rintro ⟨tree, hreads, hfile, hdecode⟩
      exact ⟨hfile, _, (read_ofText_iff s _).mpr ⟨tree, hreads, rfl⟩, hdecode⟩

-- A word needs no blank behind it, it is a name behind `let`, and a sign behind a value adds.
example : (Scan.ofText "letlet=letter+-1".toList).tokens.map (·.terminal) =
    [.letWord, .name, .equals, .name, .plus, .number] := by
  decide +kernel

end ScriptLoader.Script.Grammar
