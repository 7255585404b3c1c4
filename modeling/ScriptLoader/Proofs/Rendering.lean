import ScriptLoader.Proofs.Lexicon
import ScriptLoader.Script.Parse

/-!
How statements are written: one token behind the other, with a space between any two of them. A sum
stands in parentheses where it is a right operand and nowhere else; in a string, the characters are
escaped that would end it or make it invalid. The text of each literal is a token of its kind and is
decoded to the literal.
-/

namespace ScriptLoader.Script

/-! ### Writing -/

namespace Literal

def escaped (c : Char) : List Char :=
  if c = '\\' then ['\\', '\\']
  else if c = '\x22' then ['\\', '\x22']
  else if c = '\n' then ['\\', 'n']
  else if c = '\r' then ['\\', 'r']
  else if c = '\x00' then ['\\', 'x', '0', '0']
  else [c]

def quoted (text : String) : List Char :=
  '\x22' :: (text.toList.flatMap escaped ++ ['\x22'])

def figures (n : Int) : List Char :=
  if n < 0 then '-' :: Nat.toDigits 10 n.natAbs else Nat.toDigits 10 n.natAbs

end Literal

namespace Call

def words (request : Call String) : List (List Char) :=
  [if request.safe then "require".toList else "load".toList, Literal.quoted request.path]

end Call

namespace Expr

def isSum {ν τ : Type} : Expr ν τ → Bool
  | .add _ _ => true
  | _ => false

def words : Expr Int String → List (List Char)
  | .number value _ => [Literal.figures value]
  | .text value _ => [Literal.quoted value]
  | .boolean value _ => [if value then "true".toList else "false".toList]
  | .nil _ => ["nil".toList]
  | .name identifier _ => [identifier.toList]
  | .call request => request.words
  | .add left right =>
    left.words ++ ['+'] :: if right.isSum then ['('] :: (right.words ++ [[')']]) else right.words

/-- No integer has too many digits, and no name is a word that is an operand or begins one. -/
def Writable : Expr Int String → Prop
  | .number value _ => (Nat.toDigits 10 value.natAbs).length ≤ Number.digitLimit
  | .name identifier _ =>
    Grammar.IsIdentifier identifier.toList ∧
      identifier.toList ∉ Terminal.operandWords.map (·.1)
  | .add left right => left.Writable ∧ right.Writable
  | _ => True

end Expr

namespace Statement

def words : Statement Int String → List (List Char)
  | .assign target value _ => "let".toList :: target.toList :: ['='] :: value.words
  | .print value _ => "print".toList :: value.words
  | .return value _ => "return".toList :: value.words
  | .fail value _ => "fail".toList :: value.words
  | .call request => request.words

/-- What is assigned to may be named like any word. -/
def Writable : Statement Int String → Prop
  | .assign target value _ => Grammar.IsIdentifier target.toList ∧ value.Writable
  | .print value _ => value.Writable
  | .return value _ => value.Writable
  | .fail value _ => value.Writable
  | .call _ => True

end Statement

def source (statements : List (Statement Int String)) : List Char :=
  [' '].intercalate (statements.flatMap Statement.words)

namespace Grammar

open Lexeme Literal

/-! ### Strings -/

theorem closing_cons_plain {before rest : List Char} {c : Char} (hbackslash : c ≠ '\\')
    (hquote : c ≠ '\x22') (hline : c ≠ '\n')
    (h : ∀ before, Closes before → Closing before rest) : Closing before (c :: rest) :=
  (closing_cons before c rest).mpr
    ⟨hline, fun heq => (hquote heq).elim, h _ (closes_append_of_ne hbackslash before)⟩

theorem closing_cons_escape {before rest : List Char} {c : Char} (hline : c ≠ '\n')
    (h : ∀ before, Closes before → Closing before rest) (hb : Closes before) :
    Closing before ('\\' :: c :: rest) := by
  rw [closing_cons, closing_cons, List.append_assoc]
  exact ⟨by decide, nofun, hline, fun _ => not_closes_append_backslash hb,
    h _ (closes_append_escape hb c)⟩

/-- The characters of a string, as they are written, do not close it, and a quote behind them
does. -/
theorem closing_escaped (text : List Char) :
    ∀ before, Closes before → Closing before (text.flatMap escaped) := by
  induction text with
  | nil => exact fun before hb => closing_nil hb
  | cons c text ih =>
      intro before hb
      rw [List.flatMap_cons]
      unfold escaped
      split_ifs with hbackslash hquote hline hreturn hnull
      · exact closing_cons_escape (by decide) ih hb
      · exact closing_cons_escape (by decide) ih hb
      · exact closing_cons_escape (by decide) ih hb
      · exact closing_cons_escape (by decide) ih hb
      · refine closing_cons_escape (by decide) (fun _ _ => ?_) hb
        refine closing_cons_plain (by decide) (by decide) (by decide) (fun _ _ => ?_)
        exact closing_cons_plain (by decide) (by decide) (by decide) ih
      · exact closing_cons_plain hbackslash hquote hline ih

theorem isString_quoted (text : String) : IsString (quoted text) :=
  ⟨_, rfl, closing_escaped text.toList [] rfl⟩

theorem decodeBody_escape {c : Char} {rest : List Char} {value : List CodePoint} {count : Nat}
    (h : escape? c rest = some (value, count)) :
    decodeBody ('\\' :: c :: rest) = (decodeBody (rest.drop count)).map (value ++ ·) := by
  rw [decodeBody, h]

theorem decodeBody_escaped (c : Char) (rest : List Char) :
    decodeBody (escaped c ++ rest) = (decodeBody rest).map (.char c :: ·) := by
  unfold escaped
  split_ifs with hbackslash hquote hline hreturn hnull
  · have hvalue : escape? '\\' rest = some ([.char '\\'], 0) := rfl
    rw [hbackslash]
    exact decodeBody_escape hvalue
  · have hvalue : escape? '\x22' rest = some ([.char '\x22'], 0) := rfl
    rw [hquote]
    exact decodeBody_escape hvalue
  · have hvalue : escape? 'n' rest = some ([.char '\n'], 0) := rfl
    rw [hline]
    exact decodeBody_escape hvalue
  · have hvalue : escape? 'r' rest = some ([.char '\r'], 0) := rfl
    rw [hreturn]
    exact decodeBody_escape hvalue
  · have hvalue : escape? 'x' ('0' :: '0' :: rest) = some ([.char '\x00'], 2) := rfl
    rw [hnull]
    exact decodeBody_escape hvalue
  · simp [decodeBody, hbackslash, hreturn, hnull]

@[simp] theorem decodeBody_flatMap_escaped (text : List Char) :
    decodeBody (text.flatMap escaped) = some (text.map .char) := by
  induction text with
  | nil => simp [decodeBody]
  | cons c text ih =>
      rw [List.flatMap_cons, decodeBody_escaped, ih]
      rfl

@[simp] theorem decodeString?_quoted (text : String) :
    decodeString? (quoted text) = some (CodePoints.ofString text) := by
  simp only [decodeString?, quoted, List.tail_cons, List.dropLast_concat,
    decodeBody_flatMap_escaped, Option.map_some]
  rfl

/-! ### Integers -/

theorem isInt_toDigits (n : Nat) : IsInt (Nat.toDigits 10 n) :=
  ⟨Nat.toDigits_ne_nil, fun _ hc => Nat.isDigit_of_mem_toDigits (by decide) (by decide) hc⟩

theorem isNumber_figures (n : Int) : IsNumber (figures n) := by
  unfold figures
  split
  · exact .inr ⟨'-', _, rfl, .inr rfl, .inr (isInt_toDigits _)⟩
  · exact .inl (.inr (isInt_toDigits _))

theorem splitSign_figures (n : Int) :
    Number.splitSign (figures n) = (decide (n < 0), Nat.toDigits 10 n.natAbs) := by
  unfold figures
  split
  · rename_i hneg
    simp [Number.splitSign, hneg]
  · rename_i hpos
    obtain ⟨c, rest, hdigits, hc⟩ := (isInt_toDigits n.natAbs).head []
    rw [List.append_nil] at hdigits
    have hminus : c ≠ '-' := by
      rintro rfl
      cases hc
    have hplus : c ≠ '+' := by
      rintro rfl
      cases hc
    simp [hdigits, Number.splitSign, hminus, hplus, hpos]

theorem mem_figures {n : Int} {c : Char} (h : c ∈ figures n) : c = '-' ∨ isDigit c = true := by
  unfold figures at h
  split at h
  · rcases List.mem_cons.mp h with rfl | h
    · exact .inl rfl
    · exact .inr ((isInt_toDigits _).2 c h)
  · exact .inr ((isInt_toDigits _).2 c h)

/-- The text of an integer has no point and no exponent. -/
theorem figures_any_eq_false (n : Int) :
    ((figures n).any fun c => c == '.' || c == 'e' || c == 'E') = false := by
  rw [List.any_eq_false]
  intro c hc
  rcases mem_figures hc with rfl | hdigit
  · decide
  · simp only [Bool.or_eq_true, beq_iff_eq]
    rintro ((rfl | rfl) | rfl) <;> cases hdigit

@[simp] theorem readInt_figures (n : Int) : Number.readInt (figures n) = n := by
  have hdigits : Number.ofDigits (Nat.toDigits 10 n.natAbs) = n.natAbs :=
    Nat.ofDigitChars_ten_toDigits
  simp only [Number.readInt, splitSign_figures, Number.signed, hdigits, decide_eq_true_eq]
  split <;> omega

theorem decodeNumber_figures {n : Int} (h : (Nat.toDigits 10 n.natAbs).length ≤ Number.digitLimit) :
    decodeNumber (figures n) = .ok (.int n) := by
  simp only [decodeNumber, figures_any_eq_false, splitSign_figures, readInt_figures]
  rw [if_neg (by decide), if_neg (Nat.not_lt.mpr h)]

end Grammar

end ScriptLoader.Script
