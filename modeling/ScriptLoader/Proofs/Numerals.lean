import Mathlib.Data.List.TakeWhile
import ScriptLoader.Script.Token

/-!
Numbers as tokens. What counts as a number is stated as in the grammar, by the forms that a text can
have; the number that is found at the start of a text is the longest one there.
-/

namespace ScriptLoader.Script.Grammar

open Lexeme

def IsSign (c : Char) : Prop := c = '+' ∨ c = '-'

def Signed (kind : List Char → Prop) (text : List Char) : Prop :=
  kind text ∨ ∃ c rest, text = c :: rest ∧ IsSign c ∧ kind rest

def IsInt (text : List Char) : Prop :=
  text ≠ [] ∧ ∀ c ∈ text, isDigit c = true

/-- `INT "." INT? | "." INT` -/
def IsDecimal (text : List Char) : Prop :=
  ∃ whole fraction, text = whole ++ '.' :: fraction ∧
    (IsInt whole ∧ (fraction = [] ∨ IsInt fraction) ∨ whole = [] ∧ IsInt fraction)

def IsExponent (text : List Char) : Prop :=
  ∃ letter power, text = letter :: power ∧ (letter = 'e' ∨ letter = 'E') ∧ Signed IsInt power

/-- `INT EXP | DECIMAL EXP?` -/
def IsFloat (text : List Char) : Prop :=
  (∃ whole power, text = whole ++ power ∧ IsInt whole ∧ IsExponent power) ∨
    ∃ decimal power, text = decimal ++ power ∧ IsDecimal decimal ∧
      (power = [] ∨ IsExponent power)

def IsNumber : List Char → Prop :=
  Signed fun text => IsFloat text ∨ IsInt text

def IsFigure (c : Char) : Prop :=
  isDigit c = true ∨ IsSign c ∨ c = '.' ∨ c = 'e' ∨ c = 'E'

theorem IsInt.figures {text : List Char} (h : IsInt text) : ∀ c ∈ text, IsFigure c :=
  fun c hc => .inl (h.2 c hc)

theorem Signed.figures {kind : List Char → Prop}
    (hkind : ∀ text, kind text → ∀ c ∈ text, IsFigure c) {text : List Char}
    (h : Signed kind text) : ∀ c ∈ text, IsFigure c := by
  rcases h with h | ⟨sign, rest, rfl, hsign, h⟩
  · exact hkind text h
  · intro c hc
    rcases List.mem_cons.mp hc with rfl | hc
    · exact .inr (.inl hsign)
    · exact hkind rest h c hc

theorem IsExponent.figures {text : List Char} (h : IsExponent text) : ∀ c ∈ text, IsFigure c := by
  obtain ⟨letter, power, rfl, hletter, hpower⟩ := h
  intro c hc
  rcases List.mem_cons.mp hc with rfl | hc
  · exact .inr (.inr (.inr hletter))
  · exact hpower.figures (fun _ => IsInt.figures) c hc

theorem IsDecimal.figures {text : List Char} (h : IsDecimal text) : ∀ c ∈ text, IsFigure c := by
  obtain ⟨whole, fraction, rfl, hfigures⟩ := h
  have hwhole : ∀ c ∈ whole, IsFigure c := by
    rcases hfigures with ⟨h, -⟩ | ⟨rfl, -⟩
    · exact h.figures
    · simp
  have hfraction : ∀ c ∈ fraction, IsFigure c := by
    rcases hfigures with ⟨-, rfl | h⟩ | ⟨-, h⟩
    · simp
    · exact h.figures
    · exact h.figures
  intro c hc
  rcases List.mem_append.mp hc with hc | hc
  · exact hwhole c hc
  · rcases List.mem_cons.mp hc with rfl | hc
    · exact .inr (.inr (.inl rfl))
    · exact hfraction c hc

theorem IsFloat.figures {text : List Char} (h : IsFloat text) : ∀ c ∈ text, IsFigure c := by
  intro c hc
  obtain ⟨whole, power, rfl, hwhole, hpower⟩ | ⟨decimal, power, rfl, hdecimal, hpower⟩ := h
  · rcases List.mem_append.mp hc with hc | hc
    · exact hwhole.figures c hc
    · exact hpower.figures c hc
  · rcases List.mem_append.mp hc with hc | hc
    · exact hdecimal.figures c hc
    · rcases hpower with rfl | hpower
      · exact (List.not_mem_nil hc).elim
      · exact hpower.figures c hc

theorem IsNumber.figures {text : List Char} (h : IsNumber text) : ∀ c ∈ text, IsFigure c := by
  refine Signed.figures (fun magnitude hmagnitude => ?_) h
  rcases hmagnitude with hfloat | hint
  · exact hfloat.figures
  · exact hint.figures

theorem digits_append {text : List Char} (h : ∀ c ∈ text, isDigit c = true)
    (rest : List Char) : digits (text ++ rest) = text ++ digits rest :=
  List.takeWhile_append_of_pos h

theorem digits_eq_nil {s : List Char} (h : ∀ c ∈ s.head?, isDigit c = false) :
    digits s = [] := by
  rcases s with _ | ⟨c, s⟩
  · rfl
  · simp [digits, h c rfl]

theorem isInt_digits {s : List Char} (h : digits s ≠ []) : IsInt (digits s) :=
  ⟨h, fun _ hc => List.mem_takeWhile_imp hc⟩

theorem digits_isFront (s : List Char) : digits s <+: s :=
  List.takeWhile_prefix _

theorem IsSign.not_isDigit {c : Char} (h : IsSign c) : isDigit c = false := by
  rcases h with rfl | rfl <;> rfl

@[simp] theorem sign_of_isSign {c : Char} (h : IsSign c) (rest : List Char) :
    sign (c :: rest) = [c] := by
  simp only [sign, if_pos (show c = '+' ∨ c = '-' from h)]

theorem sign_eq_nil {s : List Char} (h : ∀ c ∈ s.head?, ¬IsSign c) : sign s = [] := by
  rcases s with _ | ⟨c, s⟩
  · rfl
  · exact if_neg (h c rfl)

theorem sign_cases (s : List Char) :
    sign s = [] ∨ ∃ c rest, s = c :: rest ∧ IsSign c ∧ sign s = [c] := by
  rcases s with _ | ⟨c, s⟩
  · exact .inl rfl
  · by_cases h : IsSign c
    · exact .inr ⟨c, s, rfl, h, sign_of_isSign h s⟩
    · exact .inl (if_neg h)

theorem IsInt.head {text : List Char} (h : IsInt text) (rest : List Char) :
    ∃ c others, text ++ rest = c :: others ∧ isDigit c = true := by
  obtain ⟨c, others, rfl⟩ := List.exists_cons_of_ne_nil h.1
  exact ⟨c, others ++ rest, rfl, h.2 c List.mem_cons_self⟩

/-- What an optional sign is followed by: the sign is split off from a text of a kind that begins
with no sign. -/
theorem sign_of_signed {kind : List Char → Prop}
    (hkind : ∀ text, kind text → text ≠ [] ∧ ∀ c ∈ text.head?, ¬IsSign c)
    {text : List Char} (h : Signed kind text) (rest : List Char) :
    ∃ unsigned, text = sign (text ++ rest) ++ unsigned ∧ kind unsigned := by
  rcases h with h | ⟨c, others, rfl, hc, h⟩
  · obtain ⟨hne, hhead⟩ := hkind text h
    obtain ⟨c, others, rfl⟩ := List.exists_cons_of_ne_nil hne
    refine ⟨c :: others, ?_, h⟩
    rw [sign_eq_nil]
    · rfl
    · exact hhead
  · exact ⟨others, by rw [List.cons_append, sign_of_isSign hc]; rfl, h⟩

theorem signed_of_sign {kind : List Char → Prop} {s unsigned : List Char} (h : kind unsigned) :
    Signed kind (sign s ++ unsigned) := by
  rcases sign_cases s with hs | ⟨c, rest, -, hc, hs⟩
  · rw [hs]
    exact .inl h
  · rw [hs]
    exact .inr ⟨c, unsigned, rfl, hc, h⟩

@[simp] theorem sign_append_drop (s : List Char) : sign s ++ s.drop (sign s).length = s := by
  rcases sign_cases s with hs | ⟨c, rest, rfl, hc, hs⟩ <;> simp [hs]

theorem isInt_not_sign (text : List Char) (h : IsInt text) :
    text ≠ [] ∧ ∀ c ∈ text.head?, ¬IsSign c := by
  refine ⟨h.1, fun c hc hsign => ?_⟩
  have hdigit := h.2 c (List.mem_of_mem_head? hc)
  rw [hsign.not_isDigit] at hdigit
  cases hdigit

theorem exponent_sound {s : List Char} (h : exponent s ≠ []) :
    IsExponent (exponent s) ∧ exponent s <+: s := by
  rcases s with _ | ⟨letter, rest⟩
  · exact (h rfl).elim
  · unfold exponent at h ⊢
    simp only at h ⊢
    split at h
    · rename_i hcond
      rw [if_pos hcond]
      obtain ⟨hletter, hpower⟩ := hcond
      refine ⟨⟨letter, _, rfl, hletter, signed_of_sign (isInt_digits hpower)⟩, ?_⟩
      rw [List.cons_append, List.cons_prefix_cons]
      refine ⟨rfl, ?_⟩
      conv => rhs; rw [← sign_append_drop rest]
      exact (List.prefix_append_right_inj _).mpr (digits_isFront _)
    · exact (h rfl).elim

theorem drop_of_eq_append {s front back : List Char} (h : s = front ++ back) :
    s.drop front.length = back := by
  subst h
  exact List.drop_left

theorem exponent_of_isExponent {text : List Char} (h : IsExponent text) (rest : List Char) :
    ∃ more, exponent (text ++ rest) = text ++ more := by
  obtain ⟨letter, power, rfl, hletter, hpower⟩ := h
  obtain ⟨unsigned, hsplit, hint⟩ := sign_of_signed isInt_not_sign hpower rest
  have happend : power ++ rest = sign (power ++ rest) ++ (unsigned ++ rest) := by
    rw [← List.append_assoc, ← hsplit]
  have hpower : digits ((power ++ rest).drop (sign (power ++ rest)).length) =
      unsigned ++ digits rest := by
    rw [drop_of_eq_append happend, digits_append hint.2]
  refine ⟨digits rest, ?_⟩
  rw [List.cons_append, exponent, hpower, if_pos ⟨hletter, by simp [hint.1]⟩, List.cons_append,
    ← List.append_assoc, ← hsplit]
  rfl

theorem exponent_eq_nil {s : List Char} (h : ∀ c ∈ s.head?, ¬(c = 'e' ∨ c = 'E')) :
    exponent s = [] := by
  rcases s with _ | ⟨c, s⟩
  · rfl
  · exact if_neg fun hcond => h c rfl hcond.1

theorem IsExponent.head {text : List Char} (h : IsExponent text) (rest : List Char) :
    ∀ c ∈ (text ++ rest).head?, isDigit c = false := by
  obtain ⟨letter, power, rfl, hletter, -⟩ := h
  rintro c ⟨⟩
  rcases hletter with rfl | rfl <;> rfl

theorem exponent_isFront (s : List Char) : exponent s <+: s := by
  by_cases h : exponent s = []
  · rw [h]
    exact List.nil_prefix
  · exact (exponent_sound h).2

theorem isDecimal_digits {s behind : List Char} (h : ¬(digits s = [] ∧ digits behind = [])) :
    IsDecimal (digits s ++ '.' :: digits behind) := by
  refine ⟨_, _, rfl, ?_⟩
  by_cases hwhole : digits s = []
  · exact .inr ⟨hwhole, isInt_digits fun hfraction => h ⟨hwhole, hfraction⟩⟩
  · refine .inl ⟨isInt_digits hwhole, ?_⟩
    by_cases hfraction : digits behind = []
    · exact .inl hfraction
    · exact .inr (isInt_digits hfraction)

@[simp] theorem digits_append_drop (s : List Char) : digits s ++ s.drop (digits s).length = s := by
  obtain ⟨rest, hrest⟩ := digits_isFront s
  rw [drop_of_eq_append hrest.symm, hrest]

/-- The forms of what `unsigned` finds: digits with an exponent, digits with a point and perhaps an
exponent, or only the digits. -/
inductive Unsigned (s : List Char) : List Char → Prop
  | power {rest : List Char} (hs : s = digits s ++ rest) (whole : digits s ≠ [])
      (power : exponent rest ≠ []) : Unsigned s (digits s ++ exponent rest)
  | point {behind rest : List Char} (hs : s = digits s ++ '.' :: behind)
      (hbehind : behind = digits behind ++ rest)
      (figures : ¬(digits s = [] ∧ digits behind = [])) :
      Unsigned s (digits s ++ '.' :: digits behind ++ exponent rest)
  | whole {rest : List Char} (hs : s = digits s ++ rest)
      (power : digits s = [] ∨ exponent rest = [])
      (point : ∀ behind, rest = '.' :: behind → digits s = [] ∧ digits behind = []) :
      Unsigned s (digits s)

theorem unsigned_form (s : List Char) : Unsigned s (unsigned s) := by
  obtain ⟨rest, hrest⟩ := digits_isFront s
  have hs : s = digits s ++ rest := hrest.symm
  unfold unsigned
  simp only [drop_of_eq_append hs]
  split
  · rename_i hcond
    exact .power hs hcond.1 hcond.2
  · rename_i hcond
    have hpower : digits s = [] ∨ exponent rest = [] := by
      by_cases hwhole : digits s = []
      · exact .inl hwhole
      · exact .inr (Decidable.not_not.mp fun hne => hcond ⟨hwhole, hne⟩)
    split
    · rename_i behind
      split
      · rename_i hboth
        have hwhole := Unsigned.whole hs hpower fun other heq => by
          cases heq
          exact hboth
        rwa [hboth.1] at hwhole
      · rename_i hboth
        exact .point hs (digits_append_drop behind).symm hboth
    · rename_i hpoint
      exact .whole hs hpower fun behind heq => (hpoint behind heq).elim

theorem front_of_split {s front back rest : List Char} (hs : s = front ++ rest)
    (hback : back <+: rest) : front ++ back <+: s := by
  rw [hs]
  exact (List.prefix_append_right_inj _).mpr hback

theorem Unsigned.sound {s text : List Char} (h : Unsigned s text) (hne : text ≠ []) :
    (IsFloat text ∨ IsInt text) ∧ text <+: s := by
  cases h with
  | power hs whole power =>
      obtain ⟨hexponent, hback⟩ := exponent_sound power
      exact ⟨.inl (.inl ⟨_, _, rfl, isInt_digits whole, hexponent⟩), front_of_split hs hback⟩
  | @point behind rest hs hbehind figures =>
      constructor
      · refine .inl (.inr ⟨_, _, rfl, isDecimal_digits figures, ?_⟩)
        by_cases hpower : exponent rest = []
        · exact .inl hpower
        · exact .inr (exponent_sound hpower).1
      · rw [List.append_assoc]
        apply front_of_split hs
        rw [List.cons_append, List.cons_prefix_cons]
        exact ⟨rfl, front_of_split hbehind (exponent_isFront rest)⟩
  | whole hs _ _ => exact ⟨.inr (isInt_digits hne), digits_isFront s⟩

theorem Unsigned.digits_isFront {s text : List Char} (h : Unsigned s text) :
    digits s <+: text := by
  cases h with
  | power _ _ _ => exact List.prefix_append _ _
  | point _ _ _ =>
      rw [List.append_assoc]
      exact List.prefix_append _ _
  | whole _ _ _ => exact List.prefix_rfl

/-- Digits before something else are found as they are. -/
theorem digits_append_of_head {whole rest : List Char} (h : ∀ c ∈ whole, isDigit c = true)
    (hrest : ∀ c ∈ rest.head?, isDigit c = false) : digits (whole ++ rest) = whole := by
  rw [digits_append h, digits_eq_nil hrest, List.append_nil]

/-- An exponent behind digits is found with them. -/
theorem Unsigned.length_le_power {whole power rest found : List Char} (hwhole : IsInt whole)
    (hpower : IsExponent power) (h : Unsigned (whole ++ (power ++ rest)) found) :
    (whole ++ power).length ≤ found.length := by
  have hdigits : digits (whole ++ (power ++ rest)) = whole :=
    digits_append_of_head hwhole.2 (hpower.head rest)
  obtain ⟨more, hmore⟩ := exponent_of_isExponent hpower rest
  obtain ⟨letter, others, rfl, hletter, -⟩ := hpower
  cases h with
  | power hs _ _ =>
      rw [hdigits] at hs ⊢
      rw [← List.append_cancel_left hs, hmore]
      simp
  | point hs _ _ =>
      -- there is a letter where the point would be
      rw [hdigits] at hs
      obtain ⟨rfl, -⟩ := List.cons.inj (List.append_cancel_left hs)
      rcases hletter with h | h <;> cases h
  | whole hs power _ =>
      rw [hdigits] at hs power
      rw [← List.append_cancel_left hs, hmore] at power
      rcases power with h | h
      · exact (hwhole.1 h).elim
      · cases h

/-- A point with digits on one of its sides is found with them, and so is an exponent behind. -/
theorem Unsigned.length_le_point {whole fraction power rest found : List Char}
    (hfigures : IsInt whole ∧ (fraction = [] ∨ IsInt fraction) ∨ whole = [] ∧ IsInt fraction)
    (hpower : power = [] ∨ IsExponent power)
    (h : Unsigned (whole ++ '.' :: (fraction ++ (power ++ rest))) found) :
    (whole ++ '.' :: fraction ++ power).length ≤ found.length := by
  have hwhole : ∀ c ∈ whole, isDigit c = true := by
    rcases hfigures with ⟨h, -⟩ | ⟨rfl, -⟩
    · exact h.2
    · exact fun _ hc => (List.not_mem_nil hc).elim
  have hfraction : ∀ c ∈ fraction, isDigit c = true := by
    rcases hfigures with ⟨-, rfl | h⟩ | ⟨-, h⟩
    · exact fun _ hc => (List.not_mem_nil hc).elim
    · exact h.2
    · exact h.2
  have hdigits : digits (whole ++ '.' :: (fraction ++ (power ++ rest))) = whole :=
    digits_append_of_head hwhole (by rintro c ⟨⟩; rfl)
  cases h with
  | power hs _ power =>
      -- there is the point where the letter would be
      rw [hdigits] at hs
      rw [← List.append_cancel_left hs] at power
      exact (power (exponent_eq_nil (by rintro c ⟨⟩; decide))).elim
  | point hs hbehind _ =>
      rw [hdigits] at hs ⊢
      obtain ⟨-, rfl⟩ := List.cons.inj (List.append_cancel_left hs)
      rw [digits_append hfraction] at hbehind ⊢
      rcases hpower with rfl | hpower
      · simp only [List.length_append, List.length_cons, List.length_nil]
        omega
      · rw [digits_eq_nil (hpower.head rest), List.append_nil] at hbehind ⊢
        obtain ⟨more, hmore⟩ := exponent_of_isExponent hpower rest
        rw [← List.append_cancel_left hbehind, hmore]
        simp
  | whole hs _ point =>
      rw [hdigits] at hs point
      obtain ⟨rfl, hnone⟩ := point _ (List.append_cancel_left hs).symm
      rw [digits_append hfraction] at hnone
      obtain ⟨rfl, -⟩ := List.append_eq_nil_iff.mp hnone
      rcases hfigures with ⟨h, -⟩ | ⟨-, h⟩
      · exact (h.1 rfl).elim
      · exact (h.1 rfl).elim

/-- An unsigned number that a text starts with is no longer than the one that is found. -/
theorem Unsigned.length_le {text rest found : List Char} (h : IsFloat text ∨ IsInt text)
    (hfound : Unsigned (text ++ rest) found) : text.length ≤ found.length := by
  rcases h with (⟨whole, power, rfl, hwhole, hpower⟩ | ⟨decimal, power, rfl, hdecimal, hpower⟩) |
    hint
  · rw [List.append_assoc] at hfound
    exact hfound.length_le_power hwhole hpower
  · obtain ⟨whole, fraction, rfl, hfigures⟩ := hdecimal
    have hsplit : whole ++ '.' :: fraction ++ power ++ rest =
        whole ++ '.' :: (fraction ++ (power ++ rest)) := by simp
    rw [hsplit] at hfound
    exact hfound.length_le_point hfigures hpower
  · obtain ⟨more, hmore⟩ := hfound.digits_isFront
    rw [digits_append hint.2] at hmore
    rw [← hmore]
    simp

/-- No unsigned number begins with a sign. -/
theorem unsigned_not_sign (text : List Char) (h : IsFloat text ∨ IsInt text) :
    text ≠ [] ∧ ∀ c ∈ text.head?, ¬IsSign c := by
  have hdigits {whole : List Char} (hwhole : IsInt whole) (rest : List Char) :
      whole ++ rest ≠ [] ∧ ∀ c ∈ (whole ++ rest).head?, ¬IsSign c := by
    obtain ⟨hne, hhead⟩ := isInt_not_sign whole hwhole
    obtain ⟨c, others, rfl⟩ := List.exists_cons_of_ne_nil hne
    exact ⟨by simp, hhead⟩
  rcases h with (⟨whole, power, rfl, hwhole, -⟩ | ⟨decimal, power, rfl, hdecimal, -⟩) | hint
  · exact hdigits hwhole power
  · obtain ⟨whole, fraction, rfl, ⟨hwhole, -⟩ | ⟨rfl, -⟩⟩ := hdecimal
    · rw [List.append_assoc]
      exact hdigits hwhole _
    · exact ⟨by simp, by rintro c ⟨⟩; exact fun h => by rcases h with h | h <;> cases h⟩
  · exact isInt_not_sign text hint

theorem number_sound {s : List Char} (h : number s ≠ []) :
    IsNumber (number s) ∧ number s <+: s := by
  unfold number at h ⊢
  simp only at h ⊢
  split at h
  · exact (h rfl).elim
  · rename_i hmagnitude
    obtain ⟨hnumber, hfront⟩ := (unsigned_form _).sound hmagnitude
    rw [if_neg hmagnitude]
    exact ⟨signed_of_sign hnumber, front_of_split (sign_append_drop s).symm hfront⟩

theorem length_le_number {text : List Char} (h : IsNumber text) (rest : List Char) :
    text.length ≤ (number (text ++ rest)).length := by
  obtain ⟨magnitude, hsplit, hmagnitude⟩ := sign_of_signed unsigned_not_sign h rest
  have happend : text ++ rest = sign (text ++ rest) ++ (magnitude ++ rest) := by
    rw [← List.append_assoc, ← hsplit]
  have hle := (unsigned_form (magnitude ++ rest)).length_le hmagnitude
  have hpos := List.length_pos_iff.mpr (unsigned_not_sign magnitude hmagnitude).1
  have hlength : text.length = (sign (text ++ rest)).length + magnitude.length := by
    conv => lhs; rw [hsplit]
    exact List.length_append
  unfold number
  simp only [drop_of_eq_append happend]
  rw [if_neg (List.ne_nil_of_length_pos (by omega)), List.length_append]
  omega

theorem IsNumber.ne_nil {text : List Char} (h : IsNumber text) : text ≠ [] := by
  obtain ⟨magnitude, hsplit, hmagnitude⟩ := sign_of_signed unsigned_not_sign h []
  rw [hsplit]
  simp [(unsigned_not_sign magnitude hmagnitude).1]

/-- The number that is found is the longest one that the text starts with. -/
theorem number_iff {s text : List Char} :
    number s = text ∧ text ≠ [] ↔
      ∃ rest, s = text ++ rest ∧ IsNumber text ∧
        ∀ longer, IsNumber longer → longer <+: s → longer.length ≤ text.length := by
  have hlongest {longer : List Char} (h : IsNumber longer) (hfront : longer <+: s) :
      longer.length ≤ (number s).length := by
    obtain ⟨rest, rfl⟩ := hfront
    exact length_le_number h rest
  constructor
  · rintro ⟨rfl, hne⟩
    obtain ⟨hnumber, rest, hrest⟩ := number_sound hne
    exact ⟨rest, hrest.symm, hnumber, fun longer h hfront => hlongest h hfront⟩
  · rintro ⟨rest, hs, hnumber, hmaximal⟩
    -- each of the two is as long as the other
    have hfront : text <+: s := ⟨rest, hs.symm⟩
    have hle := hlongest hnumber hfront
    have hpos := List.length_pos_iff.mpr hnumber.ne_nil
    have hne : number s ≠ [] := List.ne_nil_of_length_pos (Nat.lt_of_lt_of_le hpos hle)
    obtain ⟨hfound, hfoundFront⟩ := number_sound hne
    have hge := hmaximal _ hfound hfoundFront
    refine ⟨?_, hnumber.ne_nil⟩
    exact (List.prefix_of_prefix_length_le hfoundFront hfront hge).eq_of_length (by omega)

end ScriptLoader.Script.Grammar
