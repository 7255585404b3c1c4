import ScriptLoader.Proofs.Decoding
import ScriptLoader.Proofs.Obstacles

/-!
What reading a text comes to. A text is a script, or it is refused with a syntax error of its file
on one of its lines, whichever stage refuses it: scanning, reading or decoding. One refusal is not
of this kind. An integer literal may be of any length, but one with more digits than can be
converted ends the reading of a text that is otherwise in order with a fault from outside.
-/

namespace ScriptLoader.Script

open Grammar Literal

/-! ### Literals that are too long -/

def hasFloatMark (text : List Char) : Bool :=
  text.any fun c => c == '.' || c == 'e' || c == 'E'

theorem decodeNumber_eq (text : List Char) :
    decodeNumber text =
      if hasFloatMark text then .ok (.float ((Number.readDecimal? text).getD 0))
      else if Number.digitLimit < (Number.splitSign text).2.length then
        .error ⟨(Number.splitSign text).2.length⟩
      else .ok (.int (Number.readInt text)) :=
  rfl

@[simp] theorem hasFloatMark_append (front back : List Char) :
    hasFloatMark (front ++ back) = (hasFloatMark front || hasFloatMark back) :=
  List.any_append

namespace Grammar

theorem IsInt.hasFloatMark {text : List Char} (h : IsInt text) : hasFloatMark text = false := by
  refine List.any_eq_false.mpr fun c hc => ?_
  have hdigit := h.2 c hc
  simp only [Bool.or_eq_true, beq_iff_eq, not_or]
  refine ⟨⟨?_, ?_⟩, ?_⟩ <;>
    · rintro rfl
      cases hdigit

theorem IsExponent.hasFloatMark {text : List Char} (h : IsExponent text) :
    hasFloatMark text = true := by
  obtain ⟨letter, power, rfl, rfl | rfl, -⟩ := h <;> rfl

theorem IsFloat.hasFloatMark {text : List Char} (h : IsFloat text) : hasFloatMark text = true := by
  obtain ⟨whole, power, rfl, -, hpower⟩ | ⟨decimal, power, rfl, hdecimal, -⟩ := h
  · simp [hpower.hasFloatMark]
  · obtain ⟨whole, fraction, rfl, -⟩ := hdecimal
    have hpoint : Script.hasFloatMark ('.' :: fraction) = true := rfl
    rw [hasFloatMark_append, hasFloatMark_append, hpoint, Bool.or_true, Bool.true_or]

theorem IsInt.splitSign {text : List Char} (h : IsInt text) :
    Number.splitSign text = (Bool.false, text) := by
  obtain ⟨hne, hhead⟩ := isInt_not_sign text h
  unfold Number.splitSign
  split
  · exact (hhead _ rfl (.inr rfl)).elim
  · exact (hhead _ rfl (.inl rfl)).elim
  · rfl

end Grammar

/-- A sign is neither a point nor the letter of an exponent. -/
@[simp] theorem hasFloatMark_signed {c : Char} (h : IsSign c) (text : List Char) :
    hasFloatMark (c :: text) = hasFloatMark text := by
  rcases h with rfl | rfl <;> rfl

def Overlong (text : List Char) (count : Nat) : Prop :=
  Signed (fun digits => IsInt digits ∧ digits.length = count) text ∧ Number.digitLimit < count

theorem decodeNumber_of_isInt {text digits : List Char} (h : IsInt digits)
    (whole : text = digits ∨ ∃ c, IsSign c ∧ text = c :: digits) :
    decodeNumber text =
      if Number.digitLimit < digits.length then .error ⟨digits.length⟩
      else .ok (.int (Number.readInt text)) := by
  have hparts : hasFloatMark text = false ∧ (Number.splitSign text).2 = digits := by
    obtain rfl | ⟨c, hc, rfl⟩ := whole
    · exact ⟨h.hasFloatMark, by rw [h.splitSign]⟩
    · refine ⟨(hasFloatMark_signed hc digits).trans h.hasFloatMark, ?_⟩
      rcases hc with rfl | rfl <;> rfl
  simp only [decodeNumber_eq, hparts.1, hparts.2, Bool.false_eq_true, if_false]

theorem exists_decodeNumber_of_isFloat {text magnitude : List Char} (h : IsFloat magnitude)
    (whole : text = magnitude ∨ ∃ c, IsSign c ∧ text = c :: magnitude) :
    ∃ x, decodeNumber text = .ok (.float x) := by
  have hmark : hasFloatMark text = true := by
    obtain rfl | ⟨c, hc, rfl⟩ := whole
    · exact h.hasFloatMark
    · exact (hasFloatMark_signed hc magnitude).trans h.hasFloatMark
  exact ⟨_, by rw [decodeNumber_eq, if_pos hmark]⟩

theorem signed_iff {kind : List Char → Prop} {text : List Char} :
    Signed kind text ↔
      ∃ magnitude, kind magnitude ∧ (text = magnitude ∨ ∃ c, IsSign c ∧ text = c :: magnitude) := by
  constructor
  · rintro (h | ⟨c, rest, rfl, hc, h⟩)
    · exact ⟨text, h, .inl rfl⟩
    · exact ⟨rest, h, .inr ⟨c, hc, rfl⟩⟩
  · rintro ⟨magnitude, h, rfl | ⟨c, hc, rfl⟩⟩
    · exact .inl h
    · exact .inr ⟨c, magnitude, rfl, hc, h⟩

theorem decodeNumber_of_overlong {text : List Char} {count : Nat} (h : Overlong text count) :
    decodeNumber text = .error ⟨count⟩ := by
  obtain ⟨hsigned, hlong⟩ := h
  obtain ⟨digits, ⟨hint, rfl⟩, whole⟩ := signed_iff.mp hsigned
  rw [decodeNumber_of_isInt hint whole, if_pos hlong]

/-- A number that cannot be decoded is an integer with too many digits. -/
theorem overlong_of_decodeNumber {text : List Char} {error : TooManyDigits} (h : IsNumber text)
    (failed : decodeNumber text = .error error) : Overlong text error.count := by
  obtain ⟨magnitude, hfloat | hint, whole⟩ := signed_iff.mp h
  · obtain ⟨x, hx⟩ := exists_decodeNumber_of_isFloat hfloat whole
    cases failed.symm.trans hx
  · rw [decodeNumber_of_isInt hint whole] at failed
    split at failed
    · rename_i hlong
      cases failed
      exact ⟨signed_iff.mpr ⟨magnitude, ⟨hint, rfl⟩, whole⟩, hlong⟩
    · cases failed

/-! ### The first token that cannot be decoded -/

/-- The text reads as statements, and the first of its tokens that cannot be decoded is an integer
with so many digits that these are too many. -/
def OverlongFirst (s : List Char) (count : Nat) : Prop :=
  (∃ raw, Reader.read (Scan.ofText s) = .ok raw) ∧
    ∃ before text line after,
      (Scan.ofText s).tokens = before ++ ⟨.number, text, line⟩ :: after ∧ Overlong text count ∧
      ∀ token ∈ before, ¬token.Undecodable ∧
        ¬(token.terminal = .number ∧ ∃ other, Overlong token.text other)

/-- The numbers among the tokens of a text are numbers. -/
theorem isNumber_of_split {s : List Char} {before after : List Token} {token : Token}
    (ending : (Scan.ofText s).ending = .endOfFile)
    (split : (Scan.ofText s).tokens = before ++ token :: after)
    (number : token.terminal = .number) : IsNumber token.text := by
  obtain ⟨front, back, mode, -, -, taken⟩ := (scans_of_ending ending).exists_place split
  obtain ⟨terminal, text, line⟩ := token
  obtain rfl : terminal = .number := number
  cases taken with
  | bare _ word _ => cases word
  | word _ word _ _ => cases word
  | number _ isNumber _ => exact isNumber
  | mark _ mark => cases mark

/-- A token that cannot be decoded is a string that is invalid or a number that is too long. -/
theorem Token.reason?_cases {token : Token} {e : Unreadable}
    (isNumber : token.terminal = .number → IsNumber token.text) (h : token.reason? = some e) :
    (token.Undecodable ∧ e = .malformed (.invalidString token.text token.line)) ∨
      token.terminal = .number ∧
        ∃ count, Overlong token.text count ∧ e = .tooManyDigits ⟨count⟩ := by
  by_cases hnumber : token.terminal = .number
  · rcases hdecode : decodeNumber token.text with error | value
    · simp only [Token.reason?, hnumber, Literal.number, hdecode, Unreadable.reason?] at h
      cases h
      exact .inr ⟨hnumber, error.count, overlong_of_decodeNumber (isNumber hnumber) hdecode, rfl⟩
    · simp only [Token.reason?, hnumber, Literal.number, hdecode, Unreadable.reason?] at h
      cases h
  · have hundecodable := Token.undecodable_of_reason? (fun number => (hnumber number).elim) h
    rw [Token.reason?_of_undecodable hundecodable] at h
    cases h
    exact .inl ⟨hundecodable, rfl⟩

theorem Token.reason?_of_overlong {text : List Char} {line count : Nat} (h : Overlong text count) :
    (⟨.number, text, line⟩ : Token).reason? = some (.tooManyDigits ⟨count⟩) := by
  simp only [Token.reason?, Literal.number, decodeNumber_of_overlong h]
  rfl

theorem readStatements_of_overlongFirst {s : List Char} {count : Nat} (h : OverlongFirst s count) :
    readStatements s = .error (.tooManyDigits ⟨count⟩) := by
  obtain ⟨⟨raw, hread⟩, before, text, line, after, hsplit, hlong, hbefore⟩ := h
  have hending := ((read_iff _ _).mp hread).1
  refine Unreadable.reason?_eq_some_iff.mp ((reason?_readStatements hread).trans ?_)
  refine List.findSome?_eq_some_iff.mpr
    ⟨before, ⟨.number, text, line⟩, after, hsplit, Token.reason?_of_overlong hlong, ?_⟩
  intro token htoken
  obtain ⟨earlier, later, rfl⟩ := List.append_of_mem htoken
  rw [List.append_assoc, List.cons_append] at hsplit
  have hnumber := isNumber_of_split hending hsplit
  rcases hreason : token.reason? with _ | e
  · rfl
  · obtain ⟨hundecodable, -⟩ | ⟨hterminal, other, hother, -⟩ :=
      Token.reason?_cases hnumber hreason
    · exact ((hbefore token htoken).1 hundecodable).elim
    · exact ((hbefore token htoken).2 ⟨hterminal, other, hother⟩).elim

/-! ### The lines of a text -/

def IsLine (s : List Char) (line : Nat) : Prop :=
  1 ≤ line ∧ line ≤ 1 + s.count '\n'

theorem isLine_of_front (front back : List Char) :
    IsLine (front ++ back) (1 + front.count '\n') := by
  rw [IsLine, List.count_append]
  omega

theorem IsLine.append {s : List Char} {line : Nat} (h : IsLine s line) (rest : List Char) :
    IsLine (s ++ rest) line := by
  obtain ⟨hfirst, hlast⟩ := h
  rw [IsLine, List.count_append]
  omega

/-- Every token is on a line of its text. -/
theorem Grammar.Scans.isLine {s : List Char} {before tokens after : List Token} {token : Token}
    (h : Scans .start 1 s tokens) (split : tokens = before ++ token :: after) :
    IsLine s token.line := by
  obtain ⟨front, back, mode, rfl, hline, -⟩ := h.exists_place split
  rw [hline]
  exact isLine_of_front front _

/-- A text that does not read as statements is refused on one of its lines. -/
theorem isLine_of_read {s : List Char} {e : SyntaxError}
    (h : Reader.read (Scan.ofText s) = .error e) : IsLine s e.line := by
  obtain ⟨-, front, rest, tokens, rfl, hreads, -, -, hobstacle⟩ :=
    syntaxError_at_obstacle none h
  cases hobstacle with
  | token split spelled unviable => exact isLine_of_front front rest
  | character split noToken => exact isLine_of_front front rest
  | endOfFile split tokens_eq underivable =>
      -- the end of the text is reported on the line of the last token
      have hnone : Progress.begin.stepAll? [] = some Progress.begin := rfl
      have hscans : Scans .start 1 front tokens := scans_iff.mpr (scanFrom_of_reads hnone hreads)
      exact (hscans.isLine tokens_eq).append rest

/-! ### What reading comes to -/

/-- Decoding the statements of a text fails with an invalid string on one of its lines, or with an
integer that is too long. -/
theorem overlongFirst_or_malformed {s : List Char} {raw : List RawStatement} {e : Unreadable}
    (hread : Reader.read (Scan.ofText s) = .ok raw) (failed : readStatements s = .error e) :
    (∃ count, OverlongFirst s count) ∨
      ∃ error : SyntaxError, e = .malformed error ∧ IsLine s error.line := by
  have hending := ((read_iff _ _).mp hread).1
  have hfirst := reason?_readStatements hread
  rw [failed] at hfirst
  obtain ⟨before, token, after, hsplit, hreason, hbefore⟩ :=
    List.findSome?_eq_some_iff.mp hfirst.symm
  obtain ⟨-, rfl⟩ | ⟨hnumber, count, hlong, rfl⟩ :=
    Token.reason?_cases (isNumber_of_split hending hsplit) hreason
  · exact .inr ⟨_, rfl, (scans_of_ending hending).isLine hsplit⟩
  · obtain ⟨terminal, text, line⟩ := token
    obtain rfl : terminal = .number := hnumber
    refine .inl ⟨count, ⟨raw, hread⟩, before, text, line, after, hsplit, hlong,
      fun earlier hearlier => ⟨fun hundecodable => ?_, ?_⟩⟩
    · cases (hbefore earlier hearlier).symm.trans (Token.reason?_of_undecodable hundecodable)
    · rintro ⟨hterminal, other, hother⟩
      obtain ⟨terminal, text, line⟩ := earlier
      obtain rfl : terminal = .number := hterminal
      cases (hbefore _ hearlier).symm.trans (Token.reason?_of_overlong hother)

/-- Reading a text for a file comes to its end in one of three ways, for every text:

* it gives a script of that file;
* it fails with a syntax error that carries the file and a line of the text;
* it fails with a fault from outside. This happens exactly if the text reads as statements and the
  first of its literals that cannot be decoded is an integer with too many digits. -/
theorem script_or_syntaxError_or_overlong (file : Option String) (s : List Char) :
    ((∃ statements, parse file s = .ok ⟨file, statements⟩) ∨
      (∃ (line : Nat) (details : String), IsLine s line ∧
        parse file s = .error (.script ⟨file, some line⟩ (.syntaxError details))) ∨
      ∃ count, OverlongFirst s count) ∧
    ∀ count, OverlongFirst s count →
      parse file s = .error (.foreign .unconvertible (TooManyDigits.message ⟨count⟩)) := by
  constructor
  · rcases hread : Reader.read (Scan.ofText s) with e | raw
    · exact .inr (.inl ⟨e.line, e.message, isLine_of_read hread,
        (syntaxError_at_obstacle file hread).1⟩)
    · rcases hstatements : readStatements s with e | statements
      · obtain hlong | ⟨error, rfl, hline⟩ := overlongFirst_or_malformed hread hstatements
        · exact .inr (.inr hlong)
        · refine .inr (.inl ⟨error.line, error.message, hline, ?_⟩)
          rw [parse, hstatements]
          rfl
      · exact .inl ⟨statements, by rw [parse, hstatements]⟩
  · intro count hlong
    rw [parse, readStatements_of_overlongFirst hlong]
    rfl

def overlongText : List Char :=
  "print ".toList ++ List.replicate 4301 '0'

set_option maxRecDepth 20000 in
/-- So there is a text that gives neither a script nor a syntax error. -/
theorem overlong_literal_leaves_parse :
    ¬∀ (file : Option String) (s : List Char),
      (∃ statements, parse file s = .ok ⟨file, statements⟩) ∨
        ∃ (line : Option Int) (details : String),
          parse file s = .error (.script ⟨file, line⟩ (.syntaxError details)) := by
  intro h
  have hreason : Unreadable.reason? (readStatements overlongText) =
      some (.tooManyDigits ⟨4301⟩) := by
    decide +kernel
  have hparse : parse none overlongText =
      .error (.foreign .unconvertible (TooManyDigits.message ⟨4301⟩)) := by
    rw [parse, Unreadable.reason?_eq_some_iff.mp hreason]
    rfl
  obtain ⟨statements, hscript⟩ | ⟨line, details, hrefused⟩ := h none overlongText
  · cases hparse.symm.trans hscript
  · cases hparse.symm.trans hrefused

end ScriptLoader.Script
