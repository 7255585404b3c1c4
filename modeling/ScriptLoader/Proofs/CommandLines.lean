import Mathlib.Algebra.Group.Nat.Defs
import ScriptLoader.CommandLine.Arguments

/-!
Command lines that run a script some times. A script and directories that do not look like flags are
read as they are written, and so is the number, unless it has too many digits.
-/

namespace ScriptLoader

/-! ### Numbers -/

namespace Number

variable {s : List Char}

theorem commonDigits_of_isDigit (h : ∀ c ∈ s, c.isDigit = true) : commonDigits s = s := by
  rw [commonDigits, List.map_congr_left, List.map_id]
  intro c hc
  have hdigit := h c hc
  simp only [Text.digitValue?_of_isDigit hdigit]
  simp only [Char.isDigit, Bool.and_eq_true, decide_eq_true_eq, ge_iff_le] at hdigit
  have hzero : 0x30 ≤ c.toNat := hdigit.1
  have hsum : '0'.toNat + (c.toNat - 0x30) = c.toNat := Nat.add_sub_cancel' hzero
  rw [hsum, Char.ofNat_toNat, id]

theorem isBlank_of_isDigit {c : Char} (h : c.isDigit = true) : Text.isBlank c = false := by
  simp only [Char.isDigit, Bool.and_eq_true, decide_eq_true_eq, ge_iff_le] at h
  have hlow : 0x30 ≤ c.toNat := h.1
  have hhigh : c.toNat ≤ 0x39 := h.2
  simp only [Text.isBlank, Bool.or_eq_false_iff, Bool.and_eq_false_iff, decide_eq_false_iff_not,
    beq_eq_false_iff_ne]
  omega

theorem trim_of_isDigit (h : ∀ c ∈ s, c.isDigit = true) : Text.trim s = s := by
  have hkeep {digits : List Char} (h : ∀ c ∈ digits, c.isDigit = true) :
      digits.dropWhile Text.isBlank = digits := by
    cases digits with
    | nil => rfl
    | cons c rest => simp [isBlank_of_isDigit (h c List.mem_cons_self)]
  rw [Text.trim, hkeep h, hkeep fun c hc => h c (List.mem_reverse.mp hc), List.reverse_reverse]

theorem joinGroups?_of_isDigit (h : ∀ c ∈ s, c.isDigit = true) : joinGroups? s = some s := by
  fun_induction joinGroups? s with
  | case1 => rfl
  | case2 rest => cases h '_' (by simp)
  | case3 c d rest _ _ => cases h '_' (by simp)
  | case4 c d rest _ => cases h '_' (by simp)
  | case5 c rest _ _ ih =>
      rw [ih fun d hd => h d (List.mem_cons_of_mem _ hd)]
      rfl

/-- Digits with nothing else are read as they are, up to the limit. -/
theorem readFreeInt?_toDigits (n : Nat) :
    readFreeInt? (Nat.toDigits 10 n) = if n < 10 ^ digitLimit then some (n : Int) else none := by
  have hdigits : ∀ c ∈ Nat.toDigits 10 n, c.isDigit = true := fun c hc =>
    Nat.isDigit_of_mem_toDigits (by decide) (by decide) hc
  have hsign : splitSign (Nat.toDigits 10 n) = (false, Nat.toDigits 10 n) := by
    unfold splitSign
    split
    · cases hdigits '-' (by simp [*])
    · cases hdigits '+' (by simp [*])
    · rfl
  have hvalue : ofDigits (Nat.toDigits 10 n) = n := Nat.ofDigitChars_ten_toDigits
  have hall : (Nat.toDigits 10 n).all Char.isDigit = true := List.all_eq_true.mpr hdigits
  have hlength : (Nat.toDigits 10 n).length ≤ digitLimit ↔ n < 10 ^ digitLimit :=
    Nat.length_toDigits_le_iff (by decide) (by decide)
  simp only [readFreeInt?, commonDigits_of_isDigit hdigits, trim_of_isDigit hdigits, hsign,
    joinGroups?_of_isDigit hdigits, hall, hvalue, signed, hlength]
  simp [Nat.toDigits_ne_nil]

end Number

namespace CommandLine

/-! ### Words -/

/-- A word that does not look like a flag. -/
def Plain (text : String) : Prop :=
  text.toList.head? ≠ some '-'

instance (text : String) : Decidable (Plain text) :=
  inferInstanceAs (Decidable (_ ≠ _))

theorem Plain.ne_separator {text : String} (h : Plain text) : text ≠ "--" := by
  rintro rfl
  exact h rfl

theorem Plain.classify {text : String} (h : Plain text) (flags : List Flag) :
    Word.classify flags text = .ok (.plain text) := by
  unfold Word.classify
  split
  · rename_i heq
    exact (h (by rw [heq]; rfl)).elim
  · rfl

theorem plain_toString (n : Nat) : Plain (toString n) := by
  intro h
  have htext : (toString n).toList = Nat.toDigits 10 n := Nat.toList_repr
  rw [htext] at h
  have hmem : '-' ∈ Nat.toDigits 10 n := List.mem_of_head? h
  cases Nat.isDigit_of_mem_toDigits (by decide) (by decide) hmem

theorem classifyAll_cons {flags : List Flag} {text : String} {word : Word} {rest : List String}
    {words : List (Word × String)} (hne : text ≠ "--") (hword : Word.classify flags text = .ok word)
    (hrest : Word.classifyAll flags rest = .ok words) :
    Word.classifyAll flags (text :: rest) = .ok ((word, text) :: words) := by
  rw [Word.classifyAll, if_neg hne, hword]
  simp only [hrest]
  rfl

def runWords (script : String) (directories : List String) (times : Nat) : List String :=
  script :: (directories.flatMap fun directory => ["-I", directory]) ++
    ["--repeat", toString times]

def runLine (script : String) (directories : List String) (times : Nat) : List String :=
  "run" :: runWords script directories times

def classifiedWords (inclusion repetition : Word) (script : String) (directories : List String)
    (times : Nat) : List (Word × String) :=
  (.plain script, script) ::
    (directories.flatMap fun directory => [(inclusion, "-I"), (.plain directory, directory)]) ++
      [(repetition, "--repeat"), (.plain (toString times), toString times)]

section

variable {script : String} {directories : List String}

theorem classifyAll_runWords (hscript : Plain script)
    (hdirectories : ∀ directory ∈ directories, Plain directory) (times : Nat) {flags : List Flag}
    {inclusion repetition : Word} (hinclusion : Word.classify flags "-I" = .ok inclusion)
    (hrepetition : Word.classify flags "--repeat" = .ok repetition) :
    Word.classifyAll flags (runWords script directories times) =
      .ok (classifiedWords inclusion repetition script directories times) := by
  refine classifyAll_cons hscript.ne_separator (hscript.classify flags) ?_
  induction directories with
  | nil =>
      have htimes := plain_toString times
      exact classifyAll_cons (by decide) hrepetition
        (classifyAll_cons htimes.ne_separator (htimes.classify flags) rfl)
  | cons directory rest ih =>
      obtain ⟨hdirectory, hrest⟩ := List.forall_mem_cons.mp hdirectories
      exact classifyAll_cons (by decide) hinclusion
        (classifyAll_cons hdirectory.ne_separator (hdirectory.classify flags) (ih hrest))

@[simp] theorem texts_classifiedWords (inclusion repetition : Word) (times : Nat) :
    (classifiedWords inclusion repetition script directories times).map (·.2) =
      runWords script directories times := by
  simp only [classifiedWords, runWords, List.map_append, List.map_cons, List.map_flatMap,
    List.map_nil]

/-- The program leaves everything behind the command to the command. -/
theorem ofProgram_runLine (hscript : Plain script)
    (hdirectories : ∀ directory ∈ directories, Plain directory) (times : Nat) :
    ∃ words, classified none programFlags (runLine script directories times) = .ok words ∧
      Reading.ofProgram .start words =
        .ok ⟨.none, [], some (.run, runWords script directories times)⟩ := by
  have hrun : Plain "run" := by decide
  have hcommand : Command.ofName? "run" = some .run := rfl
  have hinclusion : Word.classify programFlags "-I" = .ok (.unknownFlag "-I") := rfl
  have hrepetition : Word.classify programFlags "--repeat" = .ok (.unknownFlag "--repeat") := rfl
  have hwords := classifyAll_cons hrun.ne_separator (hrun.classify programFlags)
    (classifyAll_runWords hscript hdirectories times hinclusion hrepetition)
  refine ⟨_, congrArg (Except.mapError (Refusal.misuse none)) hwords, ?_⟩
  rw [Reading.ofProgram]
  simp only [hcommand, texts_classifiedWords]
  rfl

/-! ### The words behind the command -/

theorem ofCommand_script (script : String) (spelling : Spelling) (text : String)
    (rest : List (Word × String)) :
    Reading.ofCommand .run .start ((.plain script, script) :: (.flag spelling, text) :: rest) =
      Reading.ofCommand .run ⟨.none, [], some script⟩ ((.flag spelling, text) :: rest) := by
  rw [Reading.ofCommand]
  · rfl
  · rintro mark others ⟨⟩

/-- A flag that needs a value takes the next word if it is plain. -/
theorem takeFlag_plain {flags : List Flag} {command : Option Command} {spelling : Spelling}
    {flag : Flag} (hcluster : Cluster.ofSpelling flags spelling = .ok ⟨[], some flag⟩)
    (reading : Reading String) (text : String) (rest : List (Word × String)) :
    reading.takeFlag flags command spelling ((.plain text, text) :: rest) =
      (reading.choices.take command flag text).map fun choices =>
        ({ reading with choices }, true) := by
  simp only [Reading.takeFlag, hcluster, Choices.takeAll, List.nil_append, Option.getD_some]
  rcases reading.choices.take command flag text with refusal | choices <;> rfl

theorem ofCommand_directory {directory : String} (h : Plain directory) (reading : Reading String)
    (rest : List (Word × String)) :
    Reading.ofCommand .run reading
        ((.flag ⟨.directory, true, none⟩, "-I") :: (.plain directory, directory) :: rest) =
      Reading.ofCommand .run
        { reading with
          choices := { reading.choices with
            directories := reading.choices.directories ++ [some directory] } } rest := by
  have hvalue : Choices.value? directory = some directory := if_neg h.ne_separator
  rw [Reading.ofCommand, takeFlag_plain rfl]
  simp only [Choices.take, hvalue]
  rfl

theorem ofCommand_directories (h : ∀ directory ∈ directories, Plain directory)
    (reading : Reading String) (rest : List (Word × String)) :
    Reading.ofCommand .run reading
        ((directories.flatMap fun directory =>
          [(Word.flag ⟨.directory, true, none⟩, "-I"), (.plain directory, directory)]) ++ rest) =
      Reading.ofCommand .run
        { reading with
          choices := { reading.choices with
            directories := reading.choices.directories ++ directories.map some } } rest := by
  induction directories generalizing reading with
  | nil => simp
  | cons directory others ih =>
      obtain ⟨hdirectory, hothers⟩ := List.forall_mem_cons.mp h
      refine (ofCommand_directory hdirectory reading _).trans ((ih hothers _).trans ?_)
      simp

theorem ofCommand_times (reading : Reading String) (times : Nat) :
    Reading.ofCommand .run reading
        [(.flag ⟨.times, false, none⟩, "--repeat"),
          (.plain (toString times), toString times)] =
      if times < 10 ^ Number.digitLimit then
        .ok { reading with choices := { reading.choices with times := some (times : Int) } }
      else .error (.misuse (some .run) (.notAnInteger .times (toString times))) := by
  have hvalue : Choices.value? (toString times) = some (toString times) :=
    if_neg (plain_toString times).ne_separator
  have htext : (toString times).toList = Nat.toDigits 10 times := Nat.toList_repr
  rw [Reading.ofCommand, takeFlag_plain rfl]
  simp only [Choices.take, hvalue, htext, Number.readFreeInt?_toDigits]
  by_cases hfew : times < 10 ^ Number.digitLimit
  · simp only [if_pos hfew]
    show Reading.ofCommand .run _ [] = _
    rw [Reading.ofCommand]
  · simp only [if_neg hfew]
    rfl

def commandWords : String → List String → Nat → List (Word × String) :=
  classifiedWords (.flag ⟨.directory, true, none⟩) (.flag ⟨.times, false, none⟩)

theorem ofCommand_commandWords (script : String)
    (hdirectories : ∀ directory ∈ directories, Plain directory) (times : Nat) :
    Reading.ofCommand .run .start (commandWords script directories times) =
      if times < 10 ^ Number.digitLimit then
        .ok ⟨⟨false, directories.map some, some (times : Int)⟩, [], some script⟩
      else .error (.misuse (some .run) (.notAnInteger .times (toString times))) := by
  have hscript : Reading.ofCommand .run .start (commandWords script directories times) =
      Reading.ofCommand .run ⟨.none, [], some script⟩
        (commandWords script directories times).tail := by
    cases directories with
    | nil => exact ofCommand_script script _ _ _
    | cons directory rest => exact ofCommand_script script _ _ _
  rw [hscript]
  exact (ofCommand_directories hdirectories _ _).trans (ofCommand_times _ times)

def runOf (script : String) (directories : List String) (times : Nat) : Invocation :=
  ⟨.run, script, directories, false, times, false⟩

@[simp] theorem known_map_some (directories : List String) :
    Choices.known (directories.map some) = directories := by
  induction directories with
  | nil => rfl
  | cons directory rest ih => exact congrArg (directory :: ·) ih

/-- Such a command line is read as it is written, unless its number has too many digits. -/
theorem ofArguments_runLine (hscript : Plain script)
    (hdirectories : ∀ directory ∈ directories, Plain directory) {times : Nat}
    (positive : 1 ≤ times) :
    Invocation.ofArguments (runLine script directories times) =
      if times < 10 ^ Number.digitLimit then
        .ok (runOf script directories times)
      else .error (.misuse (some .run) (.notAnInteger .times (toString times))) := by
  obtain ⟨words, houter, hprogram⟩ := ofProgram_runLine hscript hdirectories times
  have hinclusion : Word.classify Command.run.flags "-I" =
      .ok (.flag ⟨.directory, true, none⟩) := rfl
  have hrepetition : Word.classify Command.run.flags "--repeat" =
      .ok (.flag ⟨.times, false, none⟩) := rfl
  have hwords : classified (some .run) Command.run.flags (runWords script directories times) =
      .ok (commandWords script directories times) :=
    congrArg (Except.mapError (Refusal.misuse (some .run)))
      (classifyAll_runWords hscript hdirectories times hinclusion hrepetition)
  have hnone : (directories.map some).contains none = false := by simp
  have htimes : ¬(times : Int) < 1 := by omega
  simp only [Invocation.ofArguments, houter, bind, Except.bind, hprogram, hwords,
    ofCommand_commandWords script hdirectories times]
  by_cases hfew : times < 10 ^ Number.digitLimit
  · simp only [if_pos hfew, List.append_nil, if_neg htimes, known_map_some, hnone,
      Int.toNat_natCast]
    rfl
  · simp only [if_neg hfew]

end

end CommandLine

end ScriptLoader
