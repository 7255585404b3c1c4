import ScriptLoader.Script.Terminal

/-!
Tokens. A text is scanned from left to right: gaps of blanks and comments are skipped, and each
token is the text that fits the mode at its place. Scanning ends at the end of the text or at the
first place where nothing fits.
-/

namespace ScriptLoader.Script

structure Token where
  terminal : Terminal
  text : List Char
  line : Nat
  deriving DecidableEq

namespace Lexeme

def isBlank (c : Char) : Bool :=
  c == ' ' || c == '\t' || c == '\x0c' || c == '\r' || c == '\n'

def isNameStart (c : Char) : Bool :=
  ('a' ≤ c && c ≤ 'z') || ('A' ≤ c && c ≤ 'Z') || c == '_'

def isDigit (c : Char) : Bool :=
  '0' ≤ c && c ≤ '9'

def isNamePart (c : Char) : Bool :=
  isNameStart c || isDigit c

def identifier : List Char → List Char
  | [] => []
  | c :: rest => if isNameStart c then c :: rest.takeWhile isNamePart else []

def digits (s : List Char) : List Char :=
  s.takeWhile isDigit

def sign : List Char → List Char
  | c :: _ => if c = '+' ∨ c = '-' then [c] else []
  | [] => []

/-- A letter, perhaps a sign, and digits; empty if one of them is missing. -/
def exponent : List Char → List Char
  | [] => []
  | c :: rest =>
    let power := digits (rest.drop (sign rest).length)
    if (c = 'e' ∨ c = 'E') ∧ power ≠ [] then c :: sign rest ++ power else []

/-- Digits with or without a point and an exponent; a point needs a digit on one of its sides. -/
def unsigned (s : List Char) : List Char :=
  let whole := digits s
  let rest := s.drop whole.length
  if whole ≠ [] ∧ exponent rest ≠ [] then whole ++ exponent rest
  else
    match rest with
    | '.' :: behind =>
      let fraction := digits behind
      if whole = [] ∧ fraction = [] then []
      else whole ++ '.' :: fraction ++ exponent (behind.drop fraction.length)
    | _ => whole

def number (s : List Char) : List Char :=
  let magnitude := unsigned (s.drop (sign s).length)
  if magnitude = [] then [] else sign s ++ magnitude

/-- A text up to the quote that closes it. A backslash takes the next character with it, and a
line feed cannot stand in a string. -/
def untilQuote : List Char → Option (List Char)
  | [] => none
  | '\\' :: c :: rest => if c = '\n' then none else (untilQuote rest).map ('\\' :: c :: ·)
  | c :: rest =>
    if c = '\x22' then some ['\x22']
    else if c = '\n' then none
    else (untilQuote rest).map (c :: ·)

def string : List Char → List Char
  | [] => []
  | c :: rest =>
    if c = '\x22' then
      match untilQuote rest with
      | some body => '\x22' :: body
      | none => []
    else []

/-- The statement word that a text starts with, whatever follows it. -/
def statementWord? (s : List Char) : Option (Terminal × List Char) :=
  (Terminal.statementWords.find? fun w => w.1.isPrefixOf s).map fun w => (w.2, w.1)

def operand? (s : List Char) : Option (Terminal × List Char) :=
  if number s ≠ [] then some (.number, number s)
  else if string s ≠ [] then some (.string, string s)
  else if identifier s ≠ [] then
    some ((Terminal.operandWords.lookup (identifier s)).getD .name, identifier s)
  else none

def mark? : List Char → Option (Terminal × List Char)
  | '=' :: _ => some (.equals, ['='])
  | '+' :: _ => some (.plus, ['+'])
  | '(' :: _ => some (.opening, ['('])
  | ')' :: _ => some (.closing, [')'])
  | _ => none

def markIn? (terminals : List Terminal) (s : List Char) : Option (Terminal × List Char) :=
  (mark? s).filter fun m => terminals.contains m.1

def find? (mode : Mode) (s : List Char) : Option (Terminal × List Char) :=
  match mode with
  | .start => statementWord? s
  | .target => if identifier s ≠ [] then some (.name, identifier s) else none
  | .equals => markIn? [.equals] s
  | .operand => (operand? s).or (markIn? [.opening] s)
  | .path => if string s ≠ [] then some (.string, string s) else none
  | .valueEnd => (statementWord? s).or (markIn? [.plus, .closing] s)

/-- The text of the token that would be read if every mode were open. -/
def any? (s : List Char) : Option (List Char) :=
  ((operand? s).or (mark? s)).map (·.2)

/-- Skips blanks and comments and counts the lines. A comment runs from a semicolon to the end of
its line. -/
def skipGap : Bool → Nat → List Char → Nat × List Char
  | _, line, [] => (line, [])
  | inComment, line, c :: rest =>
    if c = '\n' then skipGap false (line + 1) rest
    else if inComment || isBlank c then skipGap inComment line rest
    else if c = ';' then skipGap true line rest
    else (line, c :: rest)

theorem length_skipGap_le (inComment : Bool) (line : Nat) (s : List Char) :
    (skipGap inComment line s).2.length ≤ s.length := by
  fun_induction skipGap inComment line s with
  | case1 => simp
  | case2 _ _ _ ih => simp only [List.length_cons]; omega
  | case3 _ _ _ _ _ _ ih => simp only [List.length_cons]; omega
  | case4 _ _ _ _ _ ih => simp only [List.length_cons]; omega
  | case5 => simp

end Lexeme

inductive Ending where
  | endOfFile
  /-- A token stands here that the mode does not admit. -/
  | refused (text : List Char) (expected : List Terminal) (line : Nat)
  /-- No token begins with this character. -/
  | invalid (character : Char) (line : Nat)
  deriving DecidableEq

structure Scan where
  tokens : List Token
  ending : Ending
  deriving DecidableEq

namespace Scan

def scanFrom (mode : Mode) (line : Nat) (s : List Char) : Scan :=
  let gap := Lexeme.skipGap false line s
  match _h : gap.2 with
  | [] => ⟨[], .endOfFile⟩
  | c :: rest =>
    match Lexeme.find? mode (c :: rest) with
    | some (_, []) => ⟨[], .invalid c gap.1⟩
    | some (terminal, first :: more) =>
      let later := scanFrom (mode.after terminal) gap.1 (rest.drop more.length)
      ⟨⟨terminal, first :: more, gap.1⟩ :: later.tokens, later.ending⟩
    | none =>
      match Lexeme.any? (c :: rest) with
      | some text => ⟨[], .refused text mode.expected gap.1⟩
      | none => ⟨[], .invalid c gap.1⟩
termination_by s.length
decreasing_by
  have hle : gap.2.length ≤ s.length := Lexeme.length_skipGap_le false line s
  rw [_h] at hle
  simp only [List.length_cons, List.length_drop] at hle ⊢
  omega

def ofText (s : List Char) : Scan :=
  scanFrom .start 1 s

end Scan

end ScriptLoader.Script
