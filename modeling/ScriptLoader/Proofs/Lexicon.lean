import ScriptLoader.Proofs.Numerals

/-!
Which token a text starts with. `Taken` states it for any set of terminals that may come: where a
name may come, words are whole identifiers; elsewhere a word is taken whatever follows it. What
`Lexeme.find?` finds in a mode is what is taken of the terminals of that mode.
-/

namespace ScriptLoader.Script.Grammar

open Lexeme

/-! ### Strings -/

def trailingBackslashes (s : List Char) : Nat :=
  (s.reverse.takeWhile (· == '\\')).length

/-- A quote behind these characters closes the string that they are in. -/
def Closes (before : List Char) : Prop :=
  trailingBackslashes before % 2 = 0

@[simp] theorem trailingBackslashes_append_backslash (s : List Char) :
    trailingBackslashes (s ++ ['\\']) = trailingBackslashes s + 1 := by
  simp [trailingBackslashes]

@[simp] theorem trailingBackslashes_append_of_ne {c : Char} (h : c ≠ '\\') (s : List Char) :
    trailingBackslashes (s ++ [c]) = 0 := by
  simp [trailingBackslashes, h]

theorem closes_append_of_ne {c : Char} (h : c ≠ '\\') (before : List Char) :
    Closes (before ++ [c]) := by
  simp [Closes, h]

theorem not_closes_append_backslash {before : List Char} (h : Closes before) :
    ¬Closes (before ++ ['\\']) := by
  unfold Closes at h ⊢
  rw [trailingBackslashes_append_backslash]
  omega

/-- A backslash takes the next character with it. -/
theorem closes_append_escape {before : List Char} (h : Closes before) (c : Char) :
    Closes (before ++ ['\\', c]) := by
  rw [List.append_cons]
  by_cases hc : c = '\\'
  · subst hc
    unfold Closes at h ⊢
    simp only [trailingBackslashes_append_backslash]
    omega
  · exact closes_append_of_ne hc _

/-- Behind some characters of a string, its other characters up to the quote that closes it. -/
structure Closing (before body : List Char) : Prop where
  oneLine : '\n' ∉ body
  closes : Closes (before ++ body)
  first : ∀ earlier later, body = earlier ++ '\x22' :: later → ¬Closes (before ++ earlier)

theorem closing_nil {before : List Char} (h : Closes before) : Closing before [] where
  oneLine := List.not_mem_nil
  closes := by rwa [List.append_nil]
  first earlier later heq := by simp at heq

theorem closing_cons (before : List Char) (c : Char) (body : List Char) :
    Closing before (c :: body) ↔
      c ≠ '\n' ∧ (c = '\x22' → ¬Closes before) ∧ Closing (before ++ [c]) body := by
  constructor
  · rintro ⟨oneLine, closes, first⟩
    refine ⟨fun heq => oneLine (by simp [heq]), ?_, ?_, ?_, ?_⟩
    · rintro rfl
      simpa using first [] body rfl
    · exact fun hmem => oneLine (List.mem_cons_of_mem _ hmem)
    · simpa using closes
    · rintro earlier later rfl
      simpa using first (c :: earlier) later rfl
  · rintro ⟨hc, hquote, oneLine, closes, first⟩
    refine ⟨?_, by simpa using closes, ?_⟩
    · intro hmem
      rcases List.mem_cons.mp hmem with rfl | hmem
      · exact hc rfl
      · exact oneLine hmem
    · intro earlier later heq
      rcases earlier with _ | ⟨d, earlier⟩
      · obtain ⟨rfl, -⟩ := List.cons.inj heq
        simpa using hquote rfl
      · obtain ⟨rfl, rfl⟩ := List.cons.inj heq
        simpa using first earlier later rfl

/-- A character that escapes nothing is a backslash only at the end of the text. -/
theorem ne_backslash {c : Char} {rest : List Char}
    (h : ∀ d others, c = '\\' → rest = d :: others → False) (hrest : rest ≠ []) : c ≠ '\\' := by
  rintro rfl
  obtain ⟨d, others, rfl⟩ := List.exists_cons_of_ne_nil hrest
  exact h d others rfl rfl

theorem untilQuote_sound {s text before : List Char} (hb : Closes before)
    (h : untilQuote s = some text) :
    ∃ body rest, s = body ++ '\x22' :: rest ∧ text = body ++ ['\x22'] ∧ Closing before body := by
  fun_induction untilQuote s generalizing text before with
  | case1 => cases h
  | case2 rest => cases h
  | case3 c rest hc ih =>
      -- the backslash and the character behind it belong to the string
      obtain ⟨found, hfound, rfl⟩ := Option.map_eq_some_iff.mp h
      obtain ⟨body, after, rfl, rfl, closing⟩ := ih (closes_append_escape hb c) hfound
      have hodd := not_closes_append_backslash hb
      refine ⟨'\\' :: c :: body, after, rfl, rfl, ?_⟩
      rw [closing_cons, closing_cons, List.append_assoc]
      exact ⟨by decide, fun h => (by cases h), hc, fun _ => hodd, closing⟩
  | case4 rest _ =>
      cases h
      exact ⟨[], rest, rfl, rfl, closing_nil hb⟩
  | case5 rest _ _ => cases h
  | case6 c rest hescape hquote hline ih =>
      obtain ⟨found, hfound, rfl⟩ := Option.map_eq_some_iff.mp h
      have hrest : rest ≠ [] := by
        rintro rfl
        cases hfound
      have hnext := closes_append_of_ne (ne_backslash hescape hrest) before
      obtain ⟨body, after, rfl, rfl, closing⟩ := ih hnext hfound
      refine ⟨c :: body, after, rfl, rfl, ?_⟩
      rw [closing_cons]
      exact ⟨hline, fun h => (hquote h).elim, closing⟩

theorem untilQuote_of_closing {s body rest before : List Char} (hb : Closes before)
    (hs : s = body ++ '\x22' :: rest) (closing : Closing before body) :
    untilQuote s = some (body ++ ['\x22']) := by
  fun_induction untilQuote s generalizing body before with
  | case1 => rcases body with _ | ⟨c, body⟩ <;> cases hs
  | case2 others =>
      rcases body with _ | ⟨c, _ | ⟨d, body⟩⟩
      · cases hs
      · cases hs
      · cases hs
        exact (closing.oneLine (by simp)).elim
  | case3 c others hc ih =>
      rcases body with _ | ⟨d, _ | ⟨e, body⟩⟩
      · cases hs
      · -- the backslash would leave the quote open
        cases hs
        exact (not_closes_append_backslash hb closing.closes).elim
      · cases hs
        rw [closing_cons, closing_cons, List.append_assoc] at closing
        rw [ih (closes_append_escape hb c) rfl closing.2.2.2.2]
        rfl
  | case4 others _ =>
      rcases body with _ | ⟨c, body⟩
      · rfl
      · cases hs
        exact (((closing_cons _ _ _).mp closing).2.1 rfl hb).elim
  | case5 others _ _ =>
      rcases body with _ | ⟨c, body⟩
      · cases hs
      · cases hs
        exact (closing.oneLine (by simp)).elim
  | case6 c others hescape hquote hline ih =>
      rcases body with _ | ⟨d, body⟩
      · cases hs
        exact (hquote rfl).elim
      · obtain ⟨rfl, rfl⟩ := List.cons.inj hs
        rw [closing_cons] at closing
        have hnext := closes_append_of_ne (ne_backslash hescape (by simp)) before
        rw [ih hnext rfl closing.2.2]
        rfl

/-- Behind an even number of backslashes, the next quote that closes the string is found. -/
theorem untilQuote_iff {s text before : List Char} (hb : Closes before) :
    untilQuote s = some text ↔
      ∃ body rest, s = body ++ '\x22' :: rest ∧ text = body ++ ['\x22'] ∧
        Closing before body := by
  constructor
  · exact untilQuote_sound hb
  · rintro ⟨body, rest, hs, rfl, closing⟩
    exact untilQuote_of_closing hb hs closing

def IsString (text : List Char) : Prop :=
  ∃ body, text = '\x22' :: (body ++ ['\x22']) ∧ Closing [] body

theorem string_of_untilQuote {s found : List Char} (h : untilQuote s = some found) :
    string ('\x22' :: s) = '\x22' :: found := by
  simp [string, h]

@[simp] theorem string_eq_nil_of_head {c : Char} (h : c ≠ '\x22') (s : List Char) :
    string (c :: s) = [] := by
  simp [string, h]

theorem string_iff {s text : List Char} :
    string s = text ∧ text ≠ [] ↔ ∃ rest, s = text ++ rest ∧ IsString text := by
  have hb : Closes [] := rfl
  constructor
  · rintro ⟨rfl, hne⟩
    rcases s with _ | ⟨c, s⟩
    · exact (hne rfl).elim
    · by_cases hc : c = '\x22'
      · subst hc
        rcases hfound : untilQuote s with _ | found
        · simp [string, hfound] at hne
        · obtain ⟨body, rest, rfl, rfl, closing⟩ := (untilQuote_iff hb).mp hfound
          rw [string_of_untilQuote hfound]
          exact ⟨rest, by simp, body, rfl, closing⟩
      · exact (hne (string_eq_nil_of_head hc s)).elim
  · rintro ⟨rest, rfl, body, rfl, closing⟩
    have hfound := (untilQuote_iff hb).mpr ⟨body, rest, rfl, rfl, closing⟩
    refine ⟨?_, by simp⟩
    rw [List.cons_append, List.append_assoc]
    exact string_of_untilQuote hfound

/-! ### Identifiers -/

def IsIdentifier (text : List Char) : Prop :=
  ∃ first others, text = first :: others ∧ isNameStart first = true ∧
    ∀ c ∈ others, isNamePart c = true

def EndsIdentifier (rest : List Char) : Prop :=
  ∀ c ∈ rest.head?, isNamePart c = false

theorem takeWhile_append_of_head {p : Char → Bool} {text rest : List Char}
    (htext : ∀ c ∈ text, p c = true) (hrest : ∀ c ∈ rest.head?, p c = false) :
    (text ++ rest).takeWhile p = text := by
  rw [List.takeWhile_append_of_pos htext]
  rcases rest with _ | ⟨c, rest⟩
  · simp
  · simp [hrest c rfl]

theorem identifier_cons {c : Char} (h : isNameStart c = true) (rest : List Char) :
    identifier (c :: rest) = c :: rest.takeWhile isNamePart := by
  simp [identifier, h]

@[simp] theorem identifier_eq_nil_of_head {c : Char} (h : isNameStart c = false)
    (rest : List Char) :
    identifier (c :: rest) = [] := by
  simp [identifier, h]

theorem identifier_iff {s text : List Char} :
    identifier s = text ∧ text ≠ [] ↔
      ∃ rest, s = text ++ rest ∧ IsIdentifier text ∧ EndsIdentifier rest := by
  constructor
  · rintro ⟨rfl, hne⟩
    rcases s with _ | ⟨c, s⟩
    · exact (hne rfl).elim
    · rcases hc : isNameStart c with _ | _
      · exact (hne (identifier_eq_nil_of_head hc s)).elim
      · rw [identifier_cons hc]
        refine ⟨s.dropWhile isNamePart, ?_, ⟨c, _, rfl, hc, ?_⟩, ?_⟩
        · rw [List.cons_append, List.takeWhile_append_dropWhile]
        · exact fun d hd => List.mem_takeWhile_imp hd
        · intro d hd
          have hhead := List.head?_dropWhile_not isNamePart s
          rw [Option.mem_def.mp hd] at hhead
          simpa using hhead
  · rintro ⟨rest, rfl, ⟨first, others, rfl, hfirst, hothers⟩, hends⟩
    refine ⟨?_, by simp⟩
    rw [List.cons_append, identifier_cons hfirst, takeWhile_append_of_head hothers hends]

/-! ### The choice of a token -/

def word? : Terminal → Option (List Char)
  | .letWord => some "let".toList
  | .printWord => some "print".toList
  | .returnWord => some "return".toList
  | .failWord => some "fail".toList
  | .loadWord => some "load".toList
  | .requireWord => some "require".toList
  | .trueWord => some "true".toList
  | .falseWord => some "false".toList
  | .nilWord => some "nil".toList
  | _ => none

def mark? : Terminal → Option Char
  | .equals => some '='
  | .plus => some '+'
  | .opening => some '('
  | .closing => some ')'
  | _ => none

/-- Of the terminals that may come, this one is taken, with this text, and this is the rest. -/
inductive Taken (viable : Terminal → Prop) : Terminal → List Char → List Char → Prop
  | bare {terminal : Terminal} {text rest : List Char} (may : viable terminal)
      (word : word? terminal = some text) (noName : ¬viable .name) :
      Taken viable terminal text rest
  | word {terminal : Terminal} {text rest : List Char} (may : viable terminal)
      (word : word? terminal = some text) (name : viable .name) (whole : EndsIdentifier rest) :
      Taken viable terminal text rest
  | name {text rest : List Char} (may : viable .name) (identifier : IsIdentifier text)
      (whole : EndsIdentifier rest)
      (noWord : ∀ terminal, viable terminal → word? terminal ≠ some text) :
      Taken viable .name text rest
  | number {text rest : List Char} (may : viable .number) (number : IsNumber text)
      (longest : ∀ longer, IsNumber longer → longer <+: text ++ rest →
        longer.length ≤ text.length) :
      Taken viable .number text rest
  | string {text rest : List Char} (may : viable .string) (string : IsString text) :
      Taken viable .string text rest
  | mark {terminal : Terminal} {c : Char} {rest : List Char} (may : viable terminal)
      (mark : mark? terminal = some c) : Taken viable terminal [c] rest

theorem Taken.viable {viable : Terminal → Prop} {terminal : Terminal} {text rest : List Char}
    (h : Taken viable terminal text rest) : viable terminal := by
  cases h <;> assumption

/-! What is taken, terminal by terminal. -/

theorem taken_name_iff {viable : Terminal → Prop} {text rest : List Char} :
    Taken viable .name text rest ↔
      viable .name ∧ IsIdentifier text ∧ EndsIdentifier rest ∧
        ∀ terminal, viable terminal → word? terminal ≠ some text := by
  constructor
  · intro taken
    cases taken with
    | bare _ word _ => cases word
    | word _ word _ _ => cases word
    | name may identifier whole noWord => exact ⟨may, identifier, whole, noWord⟩
    | mark _ mark => cases mark
  · rintro ⟨may, identifier, whole, noWord⟩
    exact .name may identifier whole noWord

theorem taken_string_iff {viable : Terminal → Prop} {text rest : List Char} :
    Taken viable .string text rest ↔ viable .string ∧ IsString text := by
  constructor
  · intro taken
    cases taken with
    | bare _ word _ => cases word
    | word _ word _ _ => cases word
    | string may string => exact ⟨may, string⟩
    | mark _ mark => cases mark
  · rintro ⟨may, string⟩
    exact .string may string

theorem word?_of_mark {terminal : Terminal} {c : Char} (h : mark? terminal = some c) :
    word? terminal = none := by
  cases terminal <;> cases h <;> rfl

theorem taken_mark_iff {viable : Terminal → Prop} {terminal : Terminal} {c : Char}
    (h : mark? terminal = some c) {text rest : List Char} :
    Taken viable terminal text rest ↔ viable terminal ∧ text = [c] := by
  have hword (text : List Char) : word? terminal ≠ some text := by
    rw [word?_of_mark h]
    simp
  constructor
  · intro taken
    cases taken with
    | bare _ word _ => exact (hword _ word).elim
    | word _ word _ _ => exact (hword _ word).elim
    | name _ _ _ _ => cases h
    | number _ _ _ => cases h
    | string _ _ => cases h
    | mark may mark =>
        rw [h] at mark
        cases mark
        exact ⟨may, rfl⟩
  · rintro ⟨may, rfl⟩
    exact .mark may h

def admitted : Mode → List Terminal
  | .start => Terminal.statementStarts
  | .target => [.name]
  | .equals => [.equals]
  | .operand => Terminal.operandStarts
  | .path => [.string]
  | .valueEnd => Terminal.statementStarts ++ [.plus, .closing]

@[simp] theorem mem_statementStarts {terminal : Terminal} :
    terminal ∈ Terminal.statementStarts ↔
      terminal = .letWord ∨ terminal = .printWord ∨ terminal = .returnWord ∨
        terminal = .failWord ∨ terminal = .loadWord ∨ terminal = .requireWord := by
  simp [Terminal.statementStarts, Terminal.statementWords]

@[simp] theorem mem_operandStarts {terminal : Terminal} :
    terminal ∈ Terminal.operandStarts ↔
      terminal = .number ∨ terminal = .string ∨ terminal = .name ∨ terminal = .opening ∨
        terminal = .loadWord ∨ terminal = .requireWord ∨ terminal = .trueWord ∨
          terminal = .falseWord ∨ terminal = .nilWord := by
  simp [Terminal.operandStarts, Terminal.operandMarks, Terminal.operandWords]

theorem statementWord?_iff {s text : List Char} {terminal : Terminal} :
    statementWord? s = some (terminal, text) ↔
      terminal ∈ Terminal.statementStarts ∧ word? terminal = some text ∧
        ∃ rest, s = text ++ rest := by
  constructor
  · intro h
    obtain ⟨⟨word, found⟩, hfind, heq⟩ := Option.map_eq_some_iff.mp h
    cases heq
    have hmem := List.mem_of_find?_eq_some hfind
    have hfront := List.find?_some hfind
    obtain ⟨rest, hrest⟩ := List.isPrefixOf_iff_prefix.mp hfront
    refine ⟨List.mem_map.mpr ⟨_, hmem, rfl⟩, ?_, rest, hrest.symm⟩
    simp only [Terminal.statementWords, List.mem_cons, List.not_mem_nil, or_false] at hmem
    rcases hmem with h | h | h | h | h | h <;> cases h <;> rfl
  · rintro ⟨hmem, hword, rest, rfl⟩
    -- no statement word begins another one
    rcases mem_statementStarts.mp hmem with rfl | rfl | rfl | rfl | rfl | rfl <;>
      cases hword <;> rfl

theorem mark?_iff {s text : List Char} {terminal : Terminal} :
    Lexeme.mark? s = some (terminal, text) ↔
      ∃ c rest, mark? terminal = some c ∧ text = [c] ∧ s = c :: rest := by
  constructor
  · intro h
    unfold Lexeme.mark? at h
    split at h <;> cases h <;> exact ⟨_, _, rfl, rfl, rfl⟩
  · rintro ⟨c, rest, hmark, rfl, rfl⟩
    cases terminal <;> cases hmark <;> rfl

theorem markIn?_iff {terminals : List Terminal} {s text : List Char} {terminal : Terminal} :
    markIn? terminals s = some (terminal, text) ↔
      terminal ∈ terminals ∧ ∃ c rest, mark? terminal = some c ∧ text = [c] ∧ s = c :: rest := by
  rw [markIn?, Option.filter_eq_some_iff, mark?_iff]
  simp [and_comm]

theorem number_eq_nil_of_head {c : Char} (hdigit : isDigit c = false) (hsign : ¬IsSign c)
    (hpoint : c ≠ '.') (s : List Char) : number (c :: s) = [] := by
  have hunsigned : unsigned (c :: s) = [] := by
    simp [unsigned, digits, hdigit, hpoint]
  have hnone : sign (c :: s) = [] := sign_eq_nil (by rintro d ⟨⟩; exact hsign)
  simp [number, hnone, hunsigned]

theorem isDigit_of_isNameStart {c : Char} (h : isNameStart c = true) : isDigit c = false := by
  rcases hd : isDigit c with _ | _
  · rfl
  · simp only [isNameStart, isDigit, Bool.or_eq_true, Bool.and_eq_true, decide_eq_true_eq,
      beq_iff_eq, Char.le_def, UInt32.le_iff_toNat_le] at h hd
    obtain ⟨-, hnine⟩ := hd
    have h9 : '9'.val.toNat = 57 := rfl
    have ha : 'a'.val.toNat = 97 := rfl
    have hA : 'A'.val.toNat = 65 := rfl
    rcases h with (h | h) | rfl
    · omega
    · omega
    · exact absurd hnine (by decide)

theorem number_eq_nil_of_isNameStart {c : Char} (h : isNameStart c = true) (s : List Char) :
    number (c :: s) = [] := by
  refine number_eq_nil_of_head (isDigit_of_isNameStart h) ?_ ?_ s
  · rintro (rfl | rfl) <;> cases h
  · rintro rfl
    cases h

theorem operandWords_lookup {text : List Char} {terminal : Terminal} :
    Terminal.operandWords.lookup text = some terminal ↔
      terminal ∈ Terminal.operandStarts ∧ word? terminal = some text := by
  constructor
  · intro h
    obtain ⟨before, after, heq, -⟩ := List.lookup_eq_some_iff.mp h
    have hmem : (text, terminal) ∈ Terminal.operandWords := by
      rw [heq]
      simp
    refine ⟨List.mem_append_right _ (List.mem_map.mpr ⟨_, hmem, rfl⟩), ?_⟩
    simp only [Terminal.operandWords, List.mem_cons, List.not_mem_nil, or_false] at hmem
    rcases hmem with h | h | h | h | h <;> cases h <;> rfl
  · rintro ⟨hmem, hword⟩
    rcases mem_operandStarts.mp hmem with rfl | rfl | rfl | rfl | rfl | rfl | rfl | rfl | rfl <;>
      cases hword <;> rfl

theorem isIdentifier_word {terminal : Terminal} {text : List Char}
    (h : word? terminal = some text) : IsIdentifier text := by
  cases terminal <;> cases h <;> exact ⟨_, _, rfl, rfl, List.all_eq_true.mp rfl⟩

theorem operand?_of_identifier {s text : List Char} (h : identifier s = text) (hne : text ≠ []) :
    operand? s = some ((Terminal.operandWords.lookup text).getD .name, text) := by
  obtain ⟨rest, rfl, ⟨first, others, rfl, hfirst, -⟩, -⟩ := identifier_iff.mp ⟨h, hne⟩
  have hnumber := number_eq_nil_of_isNameStart hfirst (others ++ rest)
  have hstring : string (first :: (others ++ rest)) = [] :=
    string_eq_nil_of_head (by rintro rfl; cases hfirst) _
  rw [List.cons_append] at h ⊢
  rw [operand?, if_neg (fun h => h hnumber), if_neg (fun h => h hstring), h, if_pos hne]

theorem operand?_of_string {s text : List Char} (h : string s = text) (hne : text ≠ []) :
    operand? s = some (.string, text) := by
  obtain ⟨rest, rfl, body, rfl, -⟩ := string_iff.mp ⟨h, hne⟩
  have hnumber : number ('\x22' :: (body ++ ['\x22'] ++ rest)) = [] :=
    number_eq_nil_of_head rfl (by rintro (h | h) <;> cases h) (by decide) _
  rw [List.cons_append] at h ⊢
  rw [operand?, if_neg (fun h => h hnumber), h, if_pos hne]

theorem operand?_of_number {s text : List Char} (h : number s = text) (hne : text ≠ []) :
    operand? s = some (.number, text) := by
  rw [operand?, h, if_pos hne]

theorem operand?_sound {s text : List Char} {terminal : Terminal}
    (h : operand? s = some (terminal, text)) :
    terminal ≠ .opening ∧ ∃ rest, s = text ++ rest ∧
      Taken (· ∈ Terminal.operandStarts) terminal text rest := by
  have hname : Terminal.name ∈ Terminal.operandStarts := by decide
  unfold operand? at h
  split at h
  · rename_i hne
    cases h
    obtain ⟨rest, hs, hnumber, hlongest⟩ := number_iff.mp ⟨rfl, hne⟩
    refine ⟨by decide, rest, hs, .number (by decide) hnumber ?_⟩
    rwa [← hs]
  · split at h
    · rename_i hne
      cases h
      obtain ⟨rest, hs, hstring⟩ := string_iff.mp ⟨rfl, hne⟩
      exact ⟨by decide, rest, hs, .string (by decide) hstring⟩
    · split at h
      · rename_i hne
        obtain ⟨rest, hs, hidentifier, hwhole⟩ := identifier_iff.mp ⟨rfl, hne⟩
        -- the identifier is a name unless it is one of the words
        rcases hlookup : Terminal.operandWords.lookup (identifier s) with _ | found
        · rw [hlookup] at h
          cases h
          refine ⟨by decide, rest, hs, .name hname hidentifier hwhole ?_⟩
          intro other hother hword
          rw [operandWords_lookup.mpr ⟨hother, hword⟩] at hlookup
          cases hlookup
        · rw [hlookup] at h
          cases h
          obtain ⟨hmem, hword⟩ := operandWords_lookup.mp hlookup
          refine ⟨?_, rest, hs, .word hmem hword hname hwhole⟩
          rintro rfl
          cases hword
      · cases h

theorem eq_opening_of_mark {terminal : Terminal} {c : Char} (mark : mark? terminal = some c)
    (h : terminal ∈ Terminal.operandStarts) : terminal = .opening := by
  rcases mem_operandStarts.mp h with rfl | rfl | rfl | rfl | rfl | rfl | rfl | rfl | rfl <;>
    cases mark
  rfl

theorem operand?_of_taken {text rest : List Char} {terminal : Terminal}
    (hne : terminal ≠ .opening)
    (taken : Taken (· ∈ Terminal.operandStarts) terminal text rest) :
    operand? (text ++ rest) = some (terminal, text) := by
  cases taken with
  | bare _ _ noName =>
      have hname : Terminal.name ∈ Terminal.operandStarts := by decide
      exact (noName hname).elim
  | word may word _ whole =>
      obtain ⟨hidentifier, htext⟩ := identifier_iff.mpr ⟨rest, rfl, isIdentifier_word word, whole⟩
      rw [operand?_of_identifier hidentifier htext, operandWords_lookup.mpr ⟨may, word⟩]
      rfl
  | name _ identifier whole noWord =>
      obtain ⟨hidentifier, htext⟩ := identifier_iff.mpr ⟨rest, rfl, identifier, whole⟩
      have hlookup : Terminal.operandWords.lookup text = none := by
        rcases h : Terminal.operandWords.lookup text with _ | found
        · rfl
        · obtain ⟨hmem, hword⟩ := operandWords_lookup.mp h
          exact (noWord found hmem hword).elim
      rw [operand?_of_identifier hidentifier htext, hlookup]
      rfl
  | number _ number longest =>
      obtain ⟨hnumber, htext⟩ := number_iff.mpr ⟨rest, rfl, number, longest⟩
      exact operand?_of_number hnumber htext
  | string _ string =>
      obtain ⟨hstring, htext⟩ := string_iff.mpr ⟨rest, rfl, string⟩
      exact operand?_of_string hstring htext
  | mark may mark => exact (hne (eq_opening_of_mark mark may)).elim

/-- What is found where an operand is due. -/
theorem operand?_iff {s text : List Char} {terminal : Terminal} :
    operand? s = some (terminal, text) ↔
      terminal ≠ .opening ∧ ∃ rest, s = text ++ rest ∧
        Taken (· ∈ Terminal.operandStarts) terminal text rest := by
  constructor
  · exact operand?_sound
  · rintro ⟨hne, rest, rfl, taken⟩
    exact operand?_of_taken hne taken

/-- Where no name, number or string may come, only words and marks are taken. -/
theorem taken_iff {viable : Terminal → Prop} (hname : ¬viable .name) (hnumber : ¬viable .number)
    (hstring : ¬viable .string) {terminal : Terminal} {text rest : List Char} :
    Taken viable terminal text rest ↔
      viable terminal ∧
        (word? terminal = some text ∨ ∃ c, mark? terminal = some c ∧ text = [c]) := by
  constructor
  · intro taken
    cases taken with
    | bare may word _ => exact ⟨may, .inl word⟩
    | word _ _ name _ => exact (hname name).elim
    | name may _ _ _ => exact (hname may).elim
    | number may _ _ => exact (hnumber may).elim
    | string may _ => exact (hstring may).elim
    | mark may mark => exact ⟨may, .inr ⟨_, mark, rfl⟩⟩
  · rintro ⟨may, word | ⟨c, mark, rfl⟩⟩
    · exact .bare may word hname
    · exact .mark may mark

theorem mark?_of_statementStarts {terminal : Terminal}
    (h : terminal ∈ Terminal.statementStarts) : mark? terminal = none := by
  rcases mem_statementStarts.mp h with rfl | rfl | rfl | rfl | rfl | rfl <;> rfl

/-- No word begins with a mark. -/
theorem statementWord?_of_mark {terminal : Terminal} {c : Char} (h : mark? terminal = some c)
    (rest : List Char) : statementWord? (c :: rest) = none := by
  rcases hfound : statementWord? (c :: rest) with _ | ⟨found, text⟩
  · rfl
  · obtain ⟨-, hword, others, heq⟩ := statementWord?_iff.mp hfound
    obtain ⟨first, more, rfl, hfirst, -⟩ := isIdentifier_word hword
    obtain ⟨rfl, -⟩ := List.cons.inj heq
    cases terminal <;> cases h <;> cases hfirst

@[simp] theorem operand?_opening (rest : List Char) : operand? ('(' :: rest) = none := by
  have hnumber : number ('(' :: rest) = [] :=
    number_eq_nil_of_head rfl (by rintro (h | h) <;> cases h) (by decide) rest
  have hstring : string ('(' :: rest) = [] := string_eq_nil_of_head (by decide) rest
  have hidentifier : identifier ('(' :: rest) = [] := identifier_eq_nil_of_head rfl rest
  rw [operand?, if_neg (fun h => h hnumber), if_neg (fun h => h hstring),
    if_neg (fun h => h hidentifier)]

theorem find?_start_iff {s text : List Char} {terminal : Terminal} :
    find? .start s = some (terminal, text) ↔
      ∃ rest, s = text ++ rest ∧ Taken (· ∈ admitted .start) terminal text rest := by
  show statementWord? s = some (terminal, text) ↔ _
  rw [statementWord?_iff]
  constructor
  · rintro ⟨hmem, hword, rest, rfl⟩
    exact ⟨rest, rfl, .bare hmem hword (by decide)⟩
  · rintro ⟨rest, rfl, taken⟩
    rw [taken_iff (by decide) (by decide) (by decide)] at taken
    obtain ⟨hmem, hword | ⟨c, hmark, -⟩⟩ := taken
    · exact ⟨hmem, hword, rest, rfl⟩
    · rw [mark?_of_statementStarts hmem] at hmark
      cases hmark

theorem find?_valueEnd_iff {s text : List Char} {terminal : Terminal} :
    find? .valueEnd s = some (terminal, text) ↔
      ∃ rest, s = text ++ rest ∧ Taken (· ∈ admitted .valueEnd) terminal text rest := by
  show (statementWord? s).or (markIn? [.plus, .closing] s) = some (terminal, text) ↔ _
  rw [Option.or_eq_some_iff, statementWord?_iff, markIn?_iff]
  constructor
  · rintro (⟨hmem, hword, rest, rfl⟩ | ⟨-, hmem, c, rest, hmark, rfl, rfl⟩)
    · exact ⟨rest, rfl, .bare (List.mem_append_left _ hmem) hword (by decide)⟩
    · exact ⟨rest, rfl, .mark (List.mem_append_right _ hmem) hmark⟩
  · rintro ⟨rest, rfl, taken⟩
    rw [taken_iff (by decide) (by decide) (by decide)] at taken
    obtain ⟨hmem, hword | ⟨c, hmark, rfl⟩⟩ := taken
    · rcases List.mem_append.mp hmem with hmem | hmem
      · exact .inl ⟨hmem, hword, rest, rfl⟩
      · simp only [List.mem_cons, List.not_mem_nil, or_false] at hmem
        rcases hmem with rfl | rfl <;> cases hword
    · rcases List.mem_append.mp hmem with hmem | hmem
      · rw [mark?_of_statementStarts hmem] at hmark
        cases hmark
      · exact .inr ⟨statementWord?_of_mark hmark rest, hmem, c, rest, hmark, rfl, rfl⟩

theorem find?_operand_iff {s text : List Char} {terminal : Terminal} :
    find? .operand s = some (terminal, text) ↔
      ∃ rest, s = text ++ rest ∧ Taken (· ∈ admitted .operand) terminal text rest := by
  show (operand? s).or (markIn? [.opening] s) = some (terminal, text) ↔ _
  rw [Option.or_eq_some_iff, operand?_iff, markIn?_iff]
  constructor
  · rintro (⟨-, h⟩ | ⟨-, hmem, c, rest, hmark, rfl, rfl⟩)
    · exact h
    · rw [List.mem_singleton] at hmem
      subst hmem
      exact ⟨rest, rfl, .mark (by decide) hmark⟩
  · rintro ⟨rest, rfl, taken⟩
    by_cases hopening : terminal = .opening
    · subst hopening
      obtain ⟨-, rfl⟩ := (taken_mark_iff rfl).mp taken
      exact .inr ⟨operand?_opening rest, List.mem_singleton.mpr rfl, _, rest, rfl, rfl, rfl⟩
    · exact .inl ⟨hopening, rest, rfl, taken⟩

theorem find?_target_iff {s text : List Char} {terminal : Terminal} :
    find? .target s = some (terminal, text) ↔
      ∃ rest, s = text ++ rest ∧ Taken (· ∈ admitted .target) terminal text rest := by
  show (if identifier s ≠ [] then some (Terminal.name, identifier s) else none) = _ ↔ _
  constructor
  · intro h
    split at h
    · rename_i hne
      cases h
      obtain ⟨rest, hs, hidentifier, hwhole⟩ := identifier_iff.mp ⟨rfl, hne⟩
      refine ⟨rest, hs, .name (List.mem_singleton.mpr rfl) hidentifier hwhole ?_⟩
      -- no word is looked for here, so a name may be spelled like one
      rintro other hmem hword
      rw [List.mem_singleton.mp hmem] at hword
      cases hword
    · cases h
  · rintro ⟨rest, rfl, taken⟩
    have hterminal := List.mem_singleton.mp taken.viable
    subst hterminal
    obtain ⟨-, isIdentifier, whole, -⟩ := taken_name_iff.mp taken
    obtain ⟨hidentifier, htext⟩ := identifier_iff.mpr ⟨rest, rfl, isIdentifier, whole⟩
    rw [hidentifier, if_pos htext]

theorem find?_path_iff {s text : List Char} {terminal : Terminal} :
    find? .path s = some (terminal, text) ↔
      ∃ rest, s = text ++ rest ∧ Taken (· ∈ admitted .path) terminal text rest := by
  show (if string s ≠ [] then some (Terminal.string, string s) else none) = _ ↔ _
  constructor
  · intro h
    split at h
    · rename_i hne
      cases h
      obtain ⟨rest, hs, hstring⟩ := string_iff.mp ⟨rfl, hne⟩
      exact ⟨rest, hs, .string (List.mem_singleton.mpr rfl) hstring⟩
    · cases h
  · rintro ⟨rest, rfl, taken⟩
    have hterminal := List.mem_singleton.mp taken.viable
    subst hterminal
    obtain ⟨-, isString⟩ := taken_string_iff.mp taken
    obtain ⟨hstring, htext⟩ := string_iff.mpr ⟨rest, rfl, isString⟩
    rw [hstring, if_pos htext]

theorem find?_equals_iff {s text : List Char} {terminal : Terminal} :
    find? .equals s = some (terminal, text) ↔
      ∃ rest, s = text ++ rest ∧ Taken (· ∈ admitted .equals) terminal text rest := by
  show markIn? [.equals] s = some (terminal, text) ↔ _
  rw [markIn?_iff]
  constructor
  · rintro ⟨hmem, c, rest, hmark, rfl, rfl⟩
    exact ⟨rest, rfl, .mark hmem hmark⟩
  · rintro ⟨rest, rfl, taken⟩
    have hterminal := List.mem_singleton.mp taken.viable
    subst hterminal
    obtain ⟨may, rfl⟩ := (taken_mark_iff rfl).mp taken
    exact ⟨may, _, rest, rfl, rfl, rfl⟩

/-- What is found in a mode is what is taken of the terminals that are looked for in it. -/
theorem find?_iff {mode : Mode} {s text : List Char} {terminal : Terminal} :
    find? mode s = some (terminal, text) ↔
      ∃ rest, s = text ++ rest ∧ Taken (· ∈ admitted mode) terminal text rest := by
  cases mode with
  | start => exact find?_start_iff
  | target => exact find?_target_iff
  | equals => exact find?_equals_iff
  | operand => exact find?_operand_iff
  | path => exact find?_path_iff
  | valueEnd => exact find?_valueEnd_iff

end ScriptLoader.Script.Grammar
