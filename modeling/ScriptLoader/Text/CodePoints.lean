import ScriptLoader.Text.Quoted

/-!
Texts of code points. A string holds characters only. A text of a script can hold surrogates too,
which its escapes name and which are no characters. Two of them side by side stay two. A text with
a surrogate is a text like any other, but it cannot be written as UTF-8.
-/

namespace ScriptLoader

inductive CodePoint where
  | char (c : Char)
  | surrogate (index : Fin 0x800)
  deriving DecidableEq

namespace CodePoint

def ofNat? (code : Nat) : Option CodePoint :=
  if h : 0xd800 ≤ code ∧ code < 0xe000 then some (surrogate ⟨code - 0xd800, by omega⟩)
  else if code < 0x110000 then some (char (Char.ofNat code))
  else none

theorem ofNat?_eq_none_iff {code : Nat} : ofNat? code = none ↔ 0x10ffff < code := by
  unfold ofNat?
  split
  · simp only [reduceCtorEq, false_iff]
    omega
  · split
    · simp only [reduceCtorEq, false_iff]
      omega
    · simp only [true_iff]
      omega

def isSurrogate : CodePoint → Bool
  | char _ => false
  | surrogate _ => true

def escapedSurrogate (index : Fin 0x800) : List Char :=
  '\\' :: 'u' :: Text.hexDigits 4 (0xd800 + index)

/-- A surrogate is shown as an escape where nothing but characters can stand. -/
def escaped : CodePoint → List Char
  | char c => [c]
  | surrogate index => escapedSurrogate index

end CodePoint

structure CodePoints where
  points : List CodePoint
  deriving DecidableEq

/-- Where a text cannot be written: at a run of surrogates. -/
structure Unwritable where
  position : Nat
  length : Nat
  first : Fin 0x800
  deriving DecidableEq

namespace Unwritable

def message (failure : Unwritable) : String :=
  let place :=
    if failure.length = 1 then
      "character '" ++ String.ofList (CodePoint.escapedSurrogate failure.first) ++
        "' in position " ++ toString failure.position
    else
      "characters in position " ++ toString failure.position ++ "-" ++
        toString (failure.position + failure.length - 1)
  "'utf-8' codec can't encode " ++ place ++ ": surrogates not allowed"

end Unwritable

namespace CodePoints

def ofString (s : String) : CodePoints := ⟨s.toList.map .char⟩

instance : Coe String CodePoints := ⟨ofString⟩

instance : Append CodePoints := ⟨fun s t => ⟨s.points ++ t.points⟩⟩

def concat (ss : List CodePoints) : CodePoints := ⟨ss.flatMap points⟩

def escaped (s : CodePoints) : String := String.ofList (s.points.flatMap CodePoint.escaped)

/-- The text as the name of a file. No file has a name with a surrogate, nor one with a NUL
character, which stands for it. -/
def fileName (s : CodePoints) : String :=
  String.ofList (s.points.map fun
    | .char c => c
    | .surrogate _ => '\x00')

def writeFrom (position : Nat) : List CodePoint → Except Unwritable (List Char)
  | [] => .ok []
  | .char c :: rest => (writeFrom (position + 1) rest).map (c :: ·)
  | .surrogate index :: rest =>
    .error ⟨position, 1 + (rest.takeWhile CodePoint.isSurrogate).length, index⟩

def write (s : CodePoints) : Except Unwritable String :=
  (writeFrom 0 s.points).map String.ofList

@[simp] theorem points_ofString (s : String) : (ofString s).points = s.toList.map .char := rfl

@[simp] theorem points_append (s t : CodePoints) : (s ++ t).points = s.points ++ t.points := rfl

@[simp] theorem ofString_append (s t : String) : ofString (s ++ t) = ofString s ++ ofString t := by
  show (⟨_⟩ : CodePoints) = ⟨_⟩
  simp

theorem foldl_append (s : CodePoints) (ss : List CodePoints) :
    ss.foldl (· ++ ·) s = concat (s :: ss) := by
  induction ss generalizing s with
  | nil => simp [concat]
  | cons t rest ih =>
      rw [List.foldl_cons, ih]
      simp [concat]

@[simp] theorem concat_map_ofString (ss : List String) :
    concat (ss.map ofString) = ofString (String.join ss) := by
  simp only [concat, ofString, List.flatMap_map, String.toList_join, List.map_flatMap]

@[simp] theorem escaped_ofString (s : String) : (ofString s).escaped = s := by
  simp [escaped, CodePoint.escaped, List.flatMap_map]

@[simp] theorem fileName_ofString (s : String) : (ofString s).fileName = s := by
  simp [fileName, Function.comp_def]

@[simp] theorem writeFrom_map_char (position : Nat) (s : List Char) :
    writeFrom position (s.map .char) = .ok s := by
  induction s generalizing position with
  | nil => rfl
  | cons c rest ih => simp only [List.map_cons, writeFrom, ih, Except.map]

@[simp] theorem write_ofString (s : String) : (ofString s).write = .ok s := by
  simp [write, Except.map]

theorem writeFrom_surrogate (position : Nat) (before : List Char) (index : Fin 0x800)
    (rest : List CodePoint) :
    writeFrom position (before.map .char ++ .surrogate index :: rest) =
      .error ⟨position + before.length, 1 + (rest.takeWhile CodePoint.isSurrogate).length,
        index⟩ := by
  induction before generalizing position with
  | nil => rfl
  | cons c before ih =>
      simp only [List.map_cons, List.cons_append, writeFrom, ih, Except.map, List.length_cons]
      congr 2
      omega

/-- A text is a string, or it has a first surrogate. -/
theorem eq_map_char_or_surrogate (points : List CodePoint) :
    (∃ s : List Char, points = s.map .char) ∨
      ∃ (before : List Char) (index : Fin 0x800) (rest : List CodePoint),
        points = before.map .char ++ .surrogate index :: rest := by
  induction points with
  | nil => exact .inl ⟨[], rfl⟩
  | cons point rest ih =>
      cases point with
      | surrogate index => exact .inr ⟨[], index, rest, rfl⟩
      | char c =>
          obtain ⟨s, rfl⟩ | ⟨before, index, others, rfl⟩ := ih
          · exact .inl ⟨c :: s, rfl⟩
          · exact .inr ⟨c :: before, index, others, rfl⟩

/-- Exactly the strings can be written, as what they are. -/
theorem write_eq_ok_iff {s : CodePoints} {line : String} : s.write = .ok line ↔ s = ↑line := by
  refine ⟨fun h => ?_, fun h => h ▸ write_ofString line⟩
  obtain ⟨points⟩ := s
  obtain ⟨chars, rfl⟩ | ⟨before, index, rest, rfl⟩ := eq_map_char_or_surrogate points
  · rw [write, writeFrom_map_char] at h
    cases h
    simp [ofString]
  · rw [write, writeFrom_surrogate] at h
    cases h

/-- Any other text cannot be written at its first run of surrogates. -/
theorem write_eq_error_iff {s : CodePoints} {failure : Unwritable} :
    s.write = .error failure ↔
      ∃ (before : List Char) (rest : List CodePoint),
        s.points = before.map .char ++ .surrogate failure.first :: rest ∧
        failure.position = before.length ∧
        failure.length = 1 + (rest.takeWhile CodePoint.isSurrogate).length := by
  obtain ⟨points⟩ := s
  constructor
  · intro h
    obtain ⟨chars, rfl⟩ | ⟨before, index, rest, rfl⟩ := eq_map_char_or_surrogate points
    · rw [write, writeFrom_map_char] at h
      cases h
    · rw [write, writeFrom_surrogate] at h
      cases h
      exact ⟨before, rest, rfl, Nat.zero_add _, rfl⟩
  · rintro ⟨before, rest, hpoints, hposition, hlength⟩
    obtain ⟨position, length, first⟩ := failure
    simp only at hpoints hposition hlength
    rw [write, hpoints, writeFrom_surrogate, Nat.zero_add, hposition, hlength]
    rfl

example : (⟨[.char 'a', .surrogate 0x3d, .surrogate 0x200, .char 'b']⟩ : CodePoints).write =
    .error ⟨1, 2, 0x3d⟩ := rfl

end CodePoints

end ScriptLoader
