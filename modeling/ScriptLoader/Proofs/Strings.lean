import Mathlib.Data.List.Induction
import Mathlib.Data.List.TakeWhile
import ScriptLoader.Proofs.Lexicon
import ScriptLoader.Script.Parse

/-!
Where a string ends, and what it is decoded to. A string is found by a pattern that counts the
backslashes in front of a quote. It is decoded piece by piece from its beginning, and escapes take a
varying number of characters. Both agree on the quote that ends it: escapes take digits, which are
neither quotes nor backslashes.
-/

namespace ScriptLoader.Script.Grammar

open Lexeme Literal

/-! ### The pattern -/

/-- The pattern of strings fits a text: a quote, characters that are no line feeds, up to a place
that is not behind a backslash, pairs of backslashes, and a quote. -/
structure Fits (s front : List Char) (pairs : Nat) (rest : List Char) : Prop where
  text : s = '\x22' :: (front ++ List.replicate (2 * pairs) '\\' ++ '\x22' :: rest)
  oneLine : '\n' ∉ front
  behind : front.getLast? ≠ some '\\'

/-- What the pattern takes of a text, as few characters at a time as it can: first of those that are
any characters, then of the pairs. -/
def LazyMatch (s text : List Char) : Prop :=
  ∃ front pairs rest, Fits s front pairs rest ∧
    text = '\x22' :: (front ++ List.replicate (2 * pairs) '\\' ++ ['\x22']) ∧
    ∀ front' pairs' rest', Fits s front' pairs' rest' →
      front.length < front'.length ∨ front.length = front'.length ∧ pairs ≤ pairs'

theorem quote_not_mem_replicate (n : Nat) : '\x22' ∉ List.replicate n '\\' := by
  simp [List.mem_replicate]

theorem trailingBackslashes_append_replicate {front : List Char}
    (h : front.getLast? ≠ some '\\') (n : Nat) :
    trailingBackslashes (front ++ List.replicate n '\\') = n := by
  induction n with
  | zero =>
      rw [List.replicate_zero, List.append_nil]
      rcases List.eq_nil_or_concat front with rfl | ⟨earlier, c, rfl⟩
      · rfl
      · rw [List.concat_eq_append, List.getLast?_concat] at h
        rw [List.concat_eq_append]
        exact trailingBackslashes_append_of_ne (fun hc => h (by rw [hc])) earlier
  | succ n ih =>
      simp [List.replicate_succ', ← List.append_assoc, ih]

/-- The backslashes at the end of a text stand behind something that does not end with one. -/
theorem exists_front (s : List Char) :
    ∃ front, front.getLast? ≠ some '\\' ∧
      s = front ++ List.replicate (trailingBackslashes s) '\\' := by
  induction s using List.reverseRecOn with
  | nil => exact ⟨[], by simp, rfl⟩
  | append_singleton s c ih =>
      by_cases hc : c = '\\'
      · obtain ⟨front, hfront, heq⟩ := ih
        refine ⟨front, hfront, ?_⟩
        rw [hc, trailingBackslashes_append_backslash, List.replicate_succ', ← List.append_assoc,
          ← heq]
      · refine ⟨s ++ [c], by simpa using hc, ?_⟩
        simp [hc]

theorem Fits.closes {s front rest : List Char} {pairs : Nat} (fits : Fits s front pairs rest) :
    Closes (front ++ List.replicate (2 * pairs) '\\') := by
  rw [Closes, trailingBackslashes_append_replicate fits.behind]
  exact Nat.mul_mod_right 2 pairs

/-- A quote that closes a string ends something that fits the pattern. -/
theorem exists_fits {body : List Char} (oneLine : '\n' ∉ body) (closes : Closes body)
    (rest : List Char) :
    ∃ front pairs, body = front ++ List.replicate (2 * pairs) '\\' ∧
      Fits ('\x22' :: (body ++ '\x22' :: rest)) front pairs rest := by
  obtain ⟨front, behind, heq⟩ := exists_front body
  have hpairs : trailingBackslashes body = 2 * (trailingBackslashes body / 2) := by
    unfold Closes at closes
    omega
  rw [hpairs] at heq
  refine ⟨front, _, heq, ?_, fun hmem => oneLine ?_, behind⟩
  · rw [← heq]
  · rw [heq]
    exact List.mem_append_left _ hmem

/-- A quote in front of the last backslashes stands in front of all of them. -/
theorem length_lt_of_quote {front earlier later : List Char} {n : Nat}
    (h : front ++ List.replicate n '\\' = earlier ++ '\x22' :: later) :
    earlier.length < front.length := by
  obtain ⟨more, rfl, hmore⟩ | ⟨more, rfl, hmore⟩ := List.append_eq_append_iff.mp h
  · have hquote : '\x22' ∈ List.replicate n '\\' := by simp [hmore]
    exact (quote_not_mem_replicate n hquote).elim
  · rcases more with _ | ⟨c, more⟩
    · rw [List.nil_append] at hmore
      have hquote : '\x22' ∈ List.replicate n '\\' := by simp [← hmore]
      exact (quote_not_mem_replicate n hquote).elim
    · simp

/-- What fits the pattern at the beginning of a string is the string, or it goes on behind the quote
that closes the string with characters of any kind. -/
theorem Closing.eq_or_length_lt {body rest front rest' : List Char} {pairs : Nat}
    (closing : Closing [] body)
    (fits : Fits ('\x22' :: (body ++ '\x22' :: rest)) front pairs rest') :
    body = front ++ List.replicate (2 * pairs) '\\' ∨ body.length < front.length := by
  have htext := (List.cons.inj fits.text).2
  obtain ⟨more, heq, hmore⟩ | ⟨more, heq, hmore⟩ := List.append_eq_append_iff.mp htext
  · rcases more with _ | ⟨c, more⟩
    · exact .inl (by rw [heq, List.append_nil])
    · obtain ⟨rfl, -⟩ := List.cons.inj hmore
      exact .inr (length_lt_of_quote heq)
  · rcases more with _ | ⟨c, more⟩
    · exact .inl (by rw [heq, List.append_nil])
    · obtain ⟨rfl, -⟩ := List.cons.inj hmore
      exact (closing.first _ _ heq fits.closes).elim

theorem between_quotes_append (body rest : List Char) :
    '\x22' :: (body ++ ['\x22']) ++ rest = '\x22' :: (body ++ '\x22' :: rest) := by
  simp

/-- The string at the start of a text is what the pattern takes of it. -/
theorem string_iff_lazyMatch {s text : List Char} :
    string s = text ∧ text ≠ [] ↔ LazyMatch s text := by
  rw [string_iff]
  constructor
  · rintro ⟨rest, rfl, body, rfl, closing⟩
    rw [between_quotes_append]
    obtain ⟨front, pairs, heq, fits⟩ := exists_fits closing.oneLine closing.closes rest
    refine ⟨front, pairs, rest, fits, by rw [heq], fun front' pairs' rest' fits' => ?_⟩
    have hlength := congrArg List.length heq
    rw [List.length_append, List.length_replicate] at hlength
    obtain heq' | hlt := closing.eq_or_length_lt fits'
    · have hcount := congrArg trailingBackslashes (heq.symm.trans heq')
      rw [trailingBackslashes_append_replicate fits.behind,
        trailingBackslashes_append_replicate fits'.behind] at hcount
      have hlength' := congrArg List.length heq'
      rw [List.length_append, List.length_replicate] at hlength'
      omega
    · omega
  · rintro ⟨front, pairs, rest, fits, rfl, least⟩
    have oneLine : '\n' ∉ front ++ List.replicate (2 * pairs) '\\' := by
      simp [fits.oneLine, List.mem_replicate]
    refine ⟨rest, fits.text.trans (between_quotes_append _ rest).symm, _, rfl, oneLine,
      fits.closes, fun earlier later heq closes => ?_⟩
    -- an earlier quote that closes would make a shorter match
    have hline : '\n' ∉ earlier := fun hmem => oneLine (heq ▸ List.mem_append_left _ hmem)
    obtain ⟨front', pairs', rfl, fits'⟩ := exists_fits hline closes (later ++ '\x22' :: rest)
    have htext : s = '\x22' :: (front' ++ List.replicate (2 * pairs') '\\' ++
        '\x22' :: (later ++ '\x22' :: rest)) := by
      rw [fits.text, heq, List.append_assoc, List.cons_append]
    rw [← htext] at fits'
    have hleast := least front' pairs' _ fits'
    have hshorter := length_lt_of_quote heq
    rw [List.length_append] at hshorter
    omega

/-! ### The reading -/

inductive Piece where
  /-- A character that stands for itself. -/
  | plain (c : Char)
  /-- A backslash, the letter behind it and the digits that the escape takes. -/
  | escape (letter : Char) (digits : List Char)
  deriving DecidableEq

def Piece.text : Piece → List Char
  | .plain c => [c]
  | .escape letter digits => '\\' :: letter :: digits

/-- The digits that an escape takes of what stands behind its letter: hexadecimal ones up to a
number that depends on the letter, or octal ones if the letter is one. -/
def escapeDigits (letter : Char) (rest : List Char) : List Char :=
  match hexWidth? letter with
  | some width => (rest.take width).takeWhile fun c => (hexValue? c).isSome
  | none => (octalDigits (letter :: rest)).tail

theorem escapeDigits_isFront (letter : Char) (rest : List Char) :
    escapeDigits letter rest <+: rest := by
  unfold escapeDigits
  split
  · exact (List.takeWhile_prefix _).trans (List.take_prefix _ _)
  · have hfront : octalDigits (letter :: rest) <+: letter :: rest :=
      (List.takeWhile_prefix _).trans (List.take_prefix _ _)
    rcases hdigits : octalDigits (letter :: rest) with _ | ⟨c, digits⟩
    · exact List.nil_prefix
    · rw [hdigits] at hfront
      exact (List.cons_prefix_cons.mp hfront).2

/-- A text from left to right: a backslash escapes the next character, and the digits that belong to
the escape are read with it. A backslash at the end escapes nothing. -/
def pieces (s : List Char) : List Piece :=
  match s with
  | [] => []
  | '\\' :: letter :: rest =>
    .escape letter (escapeDigits letter rest) ::
      pieces (rest.drop (escapeDigits letter rest).length)
  | c :: rest => .plain c :: pieces rest
termination_by s.length
decreasing_by
  all_goals simp only [List.length_cons, List.length_drop]; omega

@[simp] theorem pieces_escape (letter : Char) (rest : List Char) :
    pieces ('\\' :: letter :: rest) =
      .escape letter (escapeDigits letter rest) ::
        pieces (rest.drop (escapeDigits letter rest).length) := by
  rw [pieces]

@[simp] theorem pieces_plain {c : Char} (h : c ≠ '\\') (rest : List Char) :
    pieces (c :: rest) = .plain c :: pieces rest := by
  rw [pieces]
  intro letter others hc
  exact (h hc).elim

@[simp] theorem escapeDigits_append_drop (letter : Char) (rest : List Char) :
    escapeDigits letter rest ++ rest.drop (escapeDigits letter rest).length = rest :=
  List.prefix_iff_eq_append.mp (escapeDigits_isFront letter rest)

/-- Reading leaves nothing out. -/
@[simp] theorem flatMap_text_pieces (s : List Char) : (pieces s).flatMap Piece.text = s := by
  fun_induction pieces s with
  | case1 => rfl
  | case2 letter rest ih =>
      rw [List.flatMap_cons, ih, Piece.text, List.cons_append, List.cons_append,
        escapeDigits_append_drop]
  | case3 c rest _ ih => rw [List.flatMap_cons, ih, Piece.text, List.singleton_append]

-- An escaped quote, an escape that is cut short, a quote, and an octal escape before a digit.
example : pieces "\\\"\\u12\"\\1019".toList =
    [.escape '\x22' [], .escape 'u' ['1', '2'], .plain '\x22', .escape '1' ['0', '1'],
      .plain '9'] := by
  decide +kernel

/-- Digits are taken alike if something else than a digit is added behind them. -/
theorem takeWhile_take_append {p : Char → Bool} {c : Char} (hc : p c = false) (s more : List Char)
    (n : Nat) : ((s ++ c :: more).take n).takeWhile p = (s.take n).takeWhile p := by
  induction s generalizing n with
  | nil =>
      cases n with
      | zero => rfl
      | succ n => simp [hc]
  | cons d s ih =>
      cases n with
      | zero => rfl
      | succ n => simp only [List.cons_append, List.take_succ_cons, List.takeWhile_cons, ih]

/-- No escape takes a quote. -/
@[simp] theorem escapeDigits_append_quote (letter : Char) (rest more : List Char) :
    escapeDigits letter (rest ++ '\x22' :: more) = escapeDigits letter rest := by
  unfold escapeDigits
  split
  · exact takeWhile_take_append (by decide) rest more _
  · rw [octalDigits, octalDigits, ← List.cons_append]
    rw [takeWhile_take_append (by decide) (letter :: rest) more 3]

theorem mem_escapeDigits {letter c : Char} {rest : List Char} (h : c ∈ escapeDigits letter rest) :
    c ≠ '\\' ∧ c ≠ '\x00' := by
  unfold escapeDigits at h
  split at h
  · have hc := List.mem_takeWhile_imp h
    constructor <;> rintro rfl <;> cases hc
  · have hc := List.mem_takeWhile_imp (List.mem_of_mem_tail h)
    constructor <;> rintro rfl <;> cases hc

theorem Closing.of_append {before front back : List Char} (h : Closing before (front ++ back)) :
    Closing (before ++ front) back where
  oneLine hmem := h.oneLine (List.mem_append_right _ hmem)
  closes := by
    rw [List.append_assoc]
    exact h.closes
  first earlier later heq := by
    rw [List.append_assoc]
    exact h.first (front ++ earlier) later (by rw [heq, List.append_assoc])

theorem closes_append_digits {before digits : List Char} (h : Closes before)
    (hdigits : '\\' ∉ digits) : Closes (before ++ digits) := by
  rcases List.eq_nil_or_concat digits with rfl | ⟨earlier, c, rfl⟩
  · rwa [List.append_nil]
  · rw [List.concat_eq_append, ← List.append_assoc]
    refine closes_append_of_ne (fun hc => hdigits ?_) _
    simp [hc]

/-- The quote that closes a string is the first one that is no part of an escape. -/
theorem Closing.pieces_append {before body : List Char} (hb : Closes before)
    (closing : Closing before body) (rest : List Char) :
    pieces (body ++ '\x22' :: rest) = pieces body ++ .plain '\x22' :: pieces rest ∧
      .plain '\x22' ∉ pieces body ∧ .plain '\\' ∉ pieces body := by
  fun_induction pieces body generalizing before with
  | case1 => simp
  | case2 letter others ih =>
      -- the escape takes its digits from the string, whatever stands behind the quote
      rw [closing_cons, closing_cons, List.append_assoc] at closing
      have hothers := closing.2.2.2.2
      rw [← escapeDigits_append_drop letter others] at hothers
      have hdigits : '\\' ∉ escapeDigits letter others := fun hmem => (mem_escapeDigits hmem).1 rfl
      obtain ⟨hread, hquote, hbackslash⟩ :=
        ih (closes_append_digits (closes_append_escape hb letter) hdigits) hothers.of_append
      rw [List.cons_append, List.cons_append, pieces_escape, escapeDigits_append_quote,
        List.drop_append_of_le_length (escapeDigits_isFront letter others).length_le, hread]
      exact ⟨rfl, by simpa using hquote, by simpa using hbackslash⟩
  | case3 c others hescape ih =>
      rw [closing_cons] at closing
      obtain ⟨-, hopen, hothers⟩ := closing
      have hc : c ≠ '\\' := by
        rintro rfl
        rcases others with _ | ⟨letter, others⟩
        · have hcloses := hothers.closes
          rw [List.append_nil] at hcloses
          exact not_closes_append_backslash hb hcloses
        · exact hescape letter others rfl rfl
      have hquote : c ≠ '\x22' := fun heq => hopen heq hb
      obtain ⟨hread, hfirst, hbackslash⟩ := ih (closes_append_of_ne hc before) hothers
      simp [hc, hread, hfirst, hbackslash, Ne.symm hquote, Ne.symm hc]

/-! ### Decoding -/

def hexNumber (before : Nat) (digits : List Char) : Nat :=
  digits.foldl (fun n c => 16 * n + (hexValue? c).getD 0) before

/-- A piece makes a string invalid: an escape that is cut short, one that is beyond all characters,
an escape for a character by its name, or a carriage return that is not escaped. -/
inductive Piece.Invalid : Piece → Prop
  | truncated {letter : Char} {digits : List Char} {width : Nat}
      (takes : hexWidth? letter = some width) (short : digits.length < width) :
      Invalid (.escape letter digits)
  | beyond {digits : List Char} (large : 0x10ffff < hexNumber 0 digits) :
      Invalid (.escape 'U' digits)
  | named {digits : List Char} : Invalid (.escape 'N' digits)
  | carriageReturn : Invalid (.plain '\r')

def Piece.value? : Piece → Option (List CodePoint)
  | .plain c => if c = '\r' ∨ c = '\x00' ∨ c = '\\' then none else some [.char c]
  | .escape letter digits => (escape? letter digits).map (·.1)

/-- Digits are read if there are as many as there have to be, and the others do not matter. -/
theorem hexDigits?_eq (before width : Nat) (s : List Char) :
    hexDigits? before width s =
      if ((s.take width).takeWhile fun c => (hexValue? c).isSome).length = width then
        some (hexNumber before ((s.take width).takeWhile fun c => (hexValue? c).isSome))
      else none := by
  induction width generalizing before s with
  | zero => simp [hexDigits?, hexNumber]
  | succ width ih =>
      rcases s with _ | ⟨c, rest⟩
      · simp [hexDigits?]
      · rcases hvalue : hexValue? c with _ | value
        · simp [hexDigits?, hvalue]
        · simp [hexDigits?, hvalue, ih, hexNumber]

theorem hexValue?_lt {c : Char} {value : Nat} (h : hexValue? c = some value) : value < 16 := by
  unfold hexValue? at h
  split_ifs at h with hdigit hlower hupper
  · have hc : 48 ≤ c.val ∧ c.val ≤ 57 := by simpa [Char.isDigit] using hdigit
    have hnine : c.toNat ≤ 57 := hc.2
    have hzero : '0'.toNat = 48 := rfl
    cases h
    omega
  · have hf : c.toNat ≤ 102 := hlower.2
    have ha : 'a'.toNat = 97 := rfl
    cases h
    omega
  · have hf : c.toNat ≤ 70 := hupper.2
    have ha : 'A'.toNat = 65 := rfl
    cases h
    omega

theorem hexNumber_lt (digits : List Char) (before : Nat) :
    hexNumber before digits < (before + 1) * Nat.pow 16 digits.length := by
  induction digits generalizing before with
  | nil =>
      show before < (before + 1) * 1
      omega
  | cons c digits ih =>
      have hc : (hexValue? c).getD 0 < 16 := by
        rcases hvalue : hexValue? c with _ | value
        · exact Nat.zero_lt_succ 15
        · exact hexValue?_lt hvalue
      have hnext := ih (16 * before + (hexValue? c).getD 0)
      have hle : 16 * before + (hexValue? c).getD 0 + 1 ≤ (before + 1) * 16 := by omega
      calc hexNumber before (c :: digits)
          < (16 * before + (hexValue? c).getD 0 + 1) * Nat.pow 16 digits.length := hnext
        _ ≤ (before + 1) * 16 * Nat.pow 16 digits.length := Nat.mul_le_mul_right _ hle
        _ = (before + 1) * Nat.pow 16 (digits.length + 1) := by
            rw [Nat.mul_assoc, Nat.mul_comm 16]
            rfl

theorem takeWhile_take_idem (p : Char → Bool) (s : List Char) (n : Nat) :
    (((s.take n).takeWhile p).take n).takeWhile p = (s.take n).takeWhile p := by
  have hlength : ((s.take n).takeWhile p).length ≤ n :=
    (List.takeWhile_prefix p).length_le.trans (List.length_take_le n s)
  rw [List.take_of_length_le hlength, List.takeWhile_idem]

@[simp] theorem octalDigits_idem (s : List Char) : octalDigits (octalDigits s) = octalDigits s :=
  takeWhile_take_idem _ s 3

theorem octalDigits_cons_tail (letter : Char) (rest : List Char) :
    octalDigits (letter :: (octalDigits (letter :: rest)).tail) = octalDigits (letter :: rest) := by
  by_cases hletter : ('0' ≤ letter && letter ≤ '7') = true
  · have hcons : octalDigits (letter :: rest) =
        letter :: (octalDigits (letter :: rest)).tail := by
      simp [octalDigits, hletter]
    rw [← hcons, octalDigits_idem]
  · simp [octalDigits, hletter]

/-- The letters of escapes that stand for one character, or none, take no digits. -/
theorem simpleEscape?_eq_some {letter : Char} {value : List Char}
    (h : simpleEscape? letter = some value) :
    hexWidth? letter = none ∧ (∀ rest, octalDigits (letter :: rest) = []) ∧ letter ≠ 'N' ∧
      letter ≠ '\x00' := by
  unfold simpleEscape? at h
  split at h <;> first | (cases h; done) | exact ⟨rfl, fun _ => rfl, by decide, by decide⟩

theorem hexWidth?_eq_some {letter : Char} {width : Nat} (h : hexWidth? letter = some width) :
    letter = 'x' ∧ width = 2 ∨ letter = 'u' ∧ width = 4 ∨ letter = 'U' ∧ width = 8 := by
  unfold hexWidth? at h
  split at h <;> cases h <;> simp

theorem escape?_escapeDigits (letter : Char) (rest : List Char) :
    escape? letter (escapeDigits letter rest) = escape? letter rest := by
  unfold escape?
  rcases hsimple : simpleEscape? letter with _ | value
  · rcases hwidth : hexWidth? letter with _ | width
    · simp only [escapeDigits, hwidth, octalDigits_cons_tail]
    · simp only [escapeDigits, hwidth, hexDigits?_eq, takeWhile_take_idem]
  · rfl

/-- An escape takes the digits that are read with it. -/
theorem length_of_escape? {letter : Char} {rest : List Char} {value : List CodePoint} {count : Nat}
    (h : escape? letter rest = some (value, count)) :
    count = (escapeDigits letter rest).length := by
  unfold escape? at h
  rcases hsimple : simpleEscape? letter with _ | simple
  · rcases hwidth : hexWidth? letter with _ | width
    · simp only [hsimple, hwidth] at h
      simp only [escapeDigits, hwidth, List.length_tail]
      split_ifs at h with hoctal
      · cases h
        rfl
      · cases h
        rw [not_not.mp hoctal]
        rfl
    · simp only [hsimple, hwidth, hexDigits?_eq] at h
      simp only [escapeDigits, hwidth]
      by_cases hlength : ((rest.take width).takeWhile fun c => (hexValue? c).isSome).length = width
      · simp only [if_pos hlength] at h
        obtain ⟨point, -, hpoint⟩ := Option.map_eq_some_iff.mp h
        cases hpoint
        exact hlength.symm
      · simp only [if_neg hlength] at h
        cases h
  · obtain ⟨hwidth, hoctal, -⟩ := simpleEscape?_eq_some hsimple
    simp only [hsimple] at h
    cases h
    simp only [escapeDigits, hwidth, hoctal, List.tail_nil, List.length_nil]

/-- A letter that takes no hexadecimal digits makes an escape invalid only if it asks for a name. -/
theorem invalid_escape_iff {letter : Char} {digits : List Char} (h : hexWidth? letter = none) :
    (Piece.escape letter digits).Invalid ↔ letter = 'N' := by
  constructor
  · intro invalid
    cases invalid with
    | truncated takes _ => cases h.symm.trans takes
    | beyond _ => cases h
    | named => rfl
  · rintro rfl
    exact .named

/-- Only hexadecimal escapes of eight digits can be beyond all characters. -/
theorem not_large_of_hexWidth? {letter : Char} {digits : List Char} {width : Nat}
    (takes : hexWidth? letter = some width) (full : digits.length = width)
    (hletter : letter ≠ 'U') : hexNumber 0 digits < 0x110000 := by
  have hlt := hexNumber_lt digits 0
  obtain ⟨-, rfl⟩ | ⟨-, rfl⟩ | ⟨rfl, -⟩ := hexWidth?_eq_some takes
  · rw [full] at hlt
    exact hlt.trans (by decide)
  · rw [full] at hlt
    exact hlt.trans (by decide)
  · exact (hletter rfl).elim

theorem hexEscape_eq_none_iff {letter : Char} {rest : List Char} {width : Nat}
    (simple : simpleEscape? letter = none) (takes : hexWidth? letter = some width) :
    escape? letter rest = none ↔ (Piece.escape letter (escapeDigits letter rest)).Invalid := by
  have hread : escapeDigits letter rest =
      (rest.take width).takeWhile fun c => (hexValue? c).isSome := by
    simp only [escapeDigits, takes]
  simp only [escape?, simple, takes, hexDigits?_eq, ← hread, Option.map_eq_none_iff]
  by_cases full : (escapeDigits letter rest).length = width
  · simp only [if_pos full, Option.bind_some, CodePoint.ofNat?_eq_none_iff]
    constructor
    · intro large
      have hletter : letter = 'U' := by
        by_contra hletter
        have hsmall := not_large_of_hexWidth? takes full hletter
        omega
      subst hletter
      exact .beyond large
    · intro invalid
      cases invalid with
      | truncated takes' short =>
          cases takes.symm.trans takes'
          omega
      | beyond large => exact large
      | named => cases takes
  · have hle : (escapeDigits letter rest).length ≤ width := by
      rw [hread]
      exact (List.takeWhile_prefix _).length_le.trans (List.length_take_le _ _)
    simp only [if_neg full, Option.bind_none, true_iff]
    exact .truncated takes (by omega)

/-- An escape has no meaning if it is invalid as it is read, or if its letter is no character that a
string can have. -/
theorem escape?_eq_none_iff (letter : Char) (rest : List Char) :
    escape? letter rest = none ↔
      (Piece.escape letter (escapeDigits letter rest)).Invalid ∨ letter = '\x00' := by
  rcases hsimple : simpleEscape? letter with _ | value
  · rcases hwidth : hexWidth? letter with _ | width
    · rw [invalid_escape_iff hwidth]
      by_cases hoctal : octalDigits (letter :: rest) = []
      · have hread : escape? letter rest =
            if letter = 'N' ∨ letter = '\x00' then none
            else some ([.char '\\', .char letter], 0) := by
          simp only [escape?, hsimple, hwidth, hoctal, ne_eq, not_true_eq_false, if_false]
        rw [hread]
        split_ifs with hbad
        · exact iff_of_true rfl hbad
        · exact iff_of_false nofun hbad
      · refine iff_of_false (by simp [escape?, hsimple, hwidth, hoctal]) ?_
        rintro (rfl | rfl) <;> exact hoctal rfl
    · rw [hexEscape_eq_none_iff hsimple hwidth]
      refine (or_iff_left ?_).symm
      rintro rfl
      cases hwidth
  · obtain ⟨hwidth, -, hname, hnull⟩ := simpleEscape?_eq_some hsimple
    rw [invalid_escape_iff hwidth]
    exact iff_of_false (by simp [escape?, hsimple]) (not_or.mpr ⟨hname, hnull⟩)

@[simp] theorem decodeBody_plain {c : Char} (h : c ≠ '\\') (rest : List Char) :
    decodeBody (c :: rest) =
      if c = '\r' ∨ c = '\x00' then none else (decodeBody rest).map (.char c :: ·) := by
  rw [decodeBody]
  · exact fun hc => (h hc).elim
  · exact fun letter others hc => (h hc).elim

/-- A string is decoded piece by piece. -/
theorem decodeBody_eq_mapM (s : List Char) :
    decodeBody s = ((pieces s).mapM Piece.value?).map List.flatten := by
  fun_induction pieces s with
  | case1 => simp [decodeBody]
  | case2 letter rest ih =>
      rw [decodeBody, List.mapM_cons, Piece.value?, escape?_escapeDigits]
      rcases hescape : escape? letter rest with _ | ⟨value, count⟩
      · rfl
      · simp only [length_of_escape? hescape, ih]
        cases (pieces (rest.drop (escapeDigits letter rest).length)).mapM Piece.value? <;> rfl
  | case3 c rest hescape ih =>
      rw [List.mapM_cons, Piece.value?]
      by_cases hc : c = '\\'
      · subst hc
        rcases rest with _ | ⟨letter, others⟩
        · simp [decodeBody]
        · exact (hescape letter others rfl rfl).elim
      · rw [decodeBody_plain hc, ih]
        by_cases hbad : c = '\r' ∨ c = '\x00'
        · rw [if_pos hbad, if_pos (by tauto)]
          rfl
        · rw [if_neg hbad, if_neg (by tauto)]
          cases (pieces rest).mapM Piece.value? <;> rfl

theorem mapM_eq_none_iff {α β : Type} {f : α → Option β} {l : List α} :
    l.mapM f = none ↔ ∃ a ∈ l, f a = none := by
  induction l with
  | nil => simp
  | cons a rest ih =>
      rw [List.mapM_cons]
      rcases hfirst : f a with _ | b
      · exact iff_of_true rfl ⟨a, List.mem_cons_self, hfirst⟩
      · rcases hrest : rest.mapM f with _ | values
        · obtain ⟨c, hmem, hc⟩ := ih.mp hrest
          exact iff_of_true rfl ⟨c, List.mem_cons_of_mem _ hmem, hc⟩
        · refine iff_of_false (by simp) ?_
          rintro ⟨c, hmem, hc⟩
          rcases List.mem_cons.mp hmem with rfl | hmem
          · cases hfirst.symm.trans hc
          · cases hrest.symm.trans (ih.mpr ⟨c, hmem, hc⟩)

theorem exists_of_escape_mem {letter : Char} {digits s : List Char}
    (h : .escape letter digits ∈ pieces s) : ∃ rest, digits = escapeDigits letter rest := by
  fun_induction pieces s with
  | case1 => cases h
  | case2 _ others ih =>
      rcases List.mem_cons.mp h with heq | hmem
      · cases heq
        exact ⟨others, rfl⟩
      · exact ih hmem
  | case3 _ _ _ ih =>
      rcases List.mem_cons.mp h with heq | hmem
      · cases heq
      · exact ih hmem

theorem value?_eq_none_iff {piece : Piece} {s : List Char} (h : piece ∈ pieces s) :
    piece.value? = none ↔
      piece.Invalid ∨ '\x00' ∈ piece.text ∨ piece = .plain '\\' := by
  cases piece with
  | plain c =>
      have hinvalid : (Piece.plain c).Invalid ↔ c = '\r' := by
        constructor
        · rintro ⟨⟩
          rfl
        · rintro rfl
          exact .carriageReturn
      have hnull : '\x00' ∈ (Piece.plain c).text ↔ c = '\x00' := by
        simp [Piece.text, eq_comm]
      rw [hinvalid, hnull, Piece.plain.injEq, Piece.value?]
      split_ifs with hbad
      · exact iff_of_true rfl hbad
      · exact iff_of_false nofun hbad
  | escape letter digits =>
      obtain ⟨rest, rfl⟩ := exists_of_escape_mem h
      have hnull : '\x00' ∈ (Piece.escape letter (escapeDigits letter rest)).text ↔
          letter = '\x00' := by
        have hdigits : '\x00' ∉ escapeDigits letter rest :=
          fun hmem => (mem_escapeDigits hmem).2 rfl
        simp [Piece.text, hdigits, eq_comm]
      rw [Piece.value?, escape?_escapeDigits, Option.map_eq_none_iff, escape?_eq_none_iff, hnull]
      simp

/-- The characters of a string cannot be decoded if and only if a piece of them is invalid, one of
them is the NUL character, or there is a backslash that escapes nothing. -/
theorem decodeBody_eq_none_iff (s : List Char) :
    decodeBody s = none ↔
      (∃ piece ∈ pieces s, piece.Invalid) ∨ '\x00' ∈ s ∨ .plain '\\' ∈ pieces s := by
  have hnull : '\x00' ∈ s ↔ ∃ piece ∈ pieces s, '\x00' ∈ piece.text := by
    rw [← List.mem_flatMap, flatMap_text_pieces]
  rw [decodeBody_eq_mapM, Option.map_eq_none_iff, mapM_eq_none_iff, hnull]
  constructor
  · rintro ⟨piece, hmem, hvalue⟩
    obtain invalid | null | rfl := (value?_eq_none_iff hmem).mp hvalue
    · exact .inl ⟨piece, hmem, invalid⟩
    · exact .inr (.inl ⟨piece, hmem, null⟩)
    · exact .inr (.inr hmem)
  · rintro (⟨piece, hmem, invalid⟩ | ⟨piece, hmem, null⟩ | hmem)
    · exact ⟨piece, hmem, (value?_eq_none_iff hmem).mpr (.inl invalid)⟩
    · exact ⟨piece, hmem, (value?_eq_none_iff hmem).mpr (.inr (.inl null))⟩
    · exact ⟨_, hmem, (value?_eq_none_iff hmem).mpr (.inr (.inr rfl))⟩

theorem decodeString?_between_quotes (body : List Char) :
    decodeString? ('\x22' :: (body ++ ['\x22'])) =
      ((pieces body).mapM Piece.value?).map fun values => ⟨values.flatten⟩ := by
  simp only [decodeString?, List.tail_cons, List.dropLast_concat, decodeBody_eq_mapM,
    Option.map_map, Function.comp_def]

/-- In a string, no backslash is left over. -/
theorem decodeString?_eq_none_iff {body : List Char} (closing : Closing [] body) :
    decodeString? ('\x22' :: (body ++ ['\x22'])) = none ↔
      (∃ piece ∈ pieces body, piece.Invalid) ∨ '\x00' ∈ body := by
  have hb : Closes [] := rfl
  obtain ⟨-, -, hbackslash⟩ := closing.pieces_append hb []
  simp only [decodeString?, List.tail_cons, List.dropLast_concat, Option.map_eq_none_iff,
    decodeBody_eq_none_iff, hbackslash, or_false]

end ScriptLoader.Script.Grammar
