import ScriptLoader.Text.Numerals
import ScriptLoader.Text.Quoted

/-!
Flags on the command line. Each flag has one or two spellings. A long spelling can be cut short
as long as no other flag fits, a value can be attached to it behind an equals sign, and to a short
spelling directly; short flags without values can be written in one word.

Words that only look like flags are plain: a lone dash, negative numbers, and words with a space
that no flag fits. Everything behind a double dash is plain.
-/

namespace ScriptLoader.CommandLine

inductive Flag where
  | help
  | verbose
  | directory
  | times
  deriving DecidableEq

namespace Flag

def spellings : Flag → List String
  | help => ["-h", "--help"]
  | verbose => ["-v", "--verbose"]
  | directory => ["-I", "--include"]
  | times => ["--repeat"]

def takesValue : Flag → Bool
  | help => false
  | verbose => false
  | directory => true
  | times => true

def label (flag : Flag) : String := "/".intercalate flag.spellings

end Flag

inductive Misuse where
  | ambiguous (word : String) (candidates : List String)
  | missingValue (flag : Flag)
  | unexpectedValue (flag : Flag) (value : String)
  | notAnInteger (flag : Flag) (value : String)
  | unknownCommand (name : String) (known : List String)
  | missing (argument : String)
  | unrecognized (words : List String)
  | tooFewRuns
  deriving DecidableEq

namespace Misuse

def message : Misuse → String
  | ambiguous word candidates =>
    "ambiguous option: " ++ word ++ " could match " ++ ", ".intercalate candidates
  | missingValue flag => "argument " ++ flag.label ++ ": expected one argument"
  | unexpectedValue flag value =>
    "argument " ++ flag.label ++ ": ignored explicit argument " ++ Text.quoted value
  | notAnInteger flag value =>
    "argument " ++ flag.label ++ ": invalid int value: " ++ Text.quoted value
  | unknownCommand name known =>
    "argument command: invalid choice: " ++ Text.quoted name ++ " (choose from " ++
      ", ".intercalate (known.map Text.quoted) ++ ")"
  | missing argument => "the following arguments are required: " ++ argument
  | unrecognized words => "unrecognized arguments: " ++ " ".intercalate words
  | tooFewRuns => "--repeat must be at least 1."

end Misuse

/-- How a word that fits a flag spells it: in short or in full, and with which text attached. -/
structure Spelling where
  flag : Flag
  short : Bool
  attached : Option (List Char)
  deriving DecidableEq

inductive Word where
  | separator
  | plain (text : String)
  | flag (spelling : Spelling)
  | unknownFlag (text : String)
  deriving DecidableEq

namespace Word

def isShort (spelling : String) : Bool := spelling.length == 2

def splitEquals (text : List Char) : List Char × Option (List Char) :=
  match text.span (· != '=') with
  | (before, _ :: value) => (before, some value)
  | (before, []) => (before, none)

def flagOf? (flags : List Flag) (spelling : String) : Option Flag :=
  flags.find? fun flag => flag.spellings.contains spelling

/-- The flags that a word can stand for if it is no full spelling, with the spelling of each. -/
def candidates (flags : List Flag) (text : List Char) : List (String × Spelling) :=
  let all := flags.flatMap fun flag => flag.spellings.map fun spelling => (spelling, flag)
  match text with
  | '-' :: '-' :: _ =>
    let (shortened, value) := splitEquals text
    (all.filter fun entry => shortened.isPrefixOf entry.1.toList).map fun entry =>
      (entry.1, ⟨entry.2, isShort entry.1, value⟩)
  | dash :: letter :: value =>
    (all.filter fun entry => entry.1.toList == [dash, letter]).map fun entry =>
      (entry.1, ⟨entry.2, true, some value⟩)
  | _ => []

/-- Digits behind a minus sign, with at most one point before the last of them; one line end may
follow. -/
def looksNegative (text : List Char) : Bool :=
  let isDigit (c : Char) : Bool := (Text.digitValue? c).isSome
  let nonempty (digits : List Char) : Bool := !digits.isEmpty && digits.all isDigit
  let body := if text.getLast? = some '\n' then text.dropLast else text
  match body with
  | '-' :: number =>
    match number.span isDigit with
    | (whole, []) => nonempty whole
    | (_, '.' :: fraction) => nonempty fraction
    | _ => false
  | _ => false

def classify (flags : List Flag) (text : String) : Except Misuse Word :=
  match text.toList with
  | '-' :: second :: rest =>
    match flagOf? flags text with
    | some known => .ok (.flag ⟨known, isShort text, none⟩)
    | none =>
      let (before, value) := splitEquals ('-' :: second :: rest)
      match value, flagOf? flags (String.ofList before) with
      | some value, some known =>
        .ok (.flag ⟨known, isShort (String.ofList before), some value⟩)
      | _, _ =>
        match candidates flags ('-' :: second :: rest) with
        | [(_, spelling)] => .ok (.flag spelling)
        | [] =>
          if looksNegative text.toList || text.toList.contains ' ' then .ok (.plain text)
          else .ok (.unknownFlag text)
        | several => .error (.ambiguous text (several.map (·.1)))
  | _ => .ok (.plain text)

def classifyAll (flags : List Flag) : List String → Except Misuse (List (Word × String))
  | [] => .ok []
  | text :: rest =>
    if text = "--" then .ok ((separator, text) :: rest.map fun t => (plain t, t))
    else
      match classify flags text with
      | .error misuse => .error misuse
      | .ok word => (classifyAll flags rest).map ((word, text) :: ·)

end Word

/-- What a word with a flag gives: flags in order, each with its value if it has one, and a last
flag that still needs the next word as its value. -/
structure Cluster where
  given : List (Flag × Option String)
  waiting : Option Flag
  deriving DecidableEq

namespace Cluster

def cons (flag : Flag) (cluster : Cluster) : Cluster :=
  { cluster with given := (flag, none) :: cluster.given }

def ofBare (flag : Flag) : Cluster :=
  if flag.takesValue then ⟨[], some flag⟩ else ⟨[(flag, none)], none⟩

/-- Splits the text attached to a flag: it is the flag's value, or it begins with the letter of
another short flag, to which the rest is attached. -/
def ofAttached (flags : List Flag) (flag : Flag) (short : Bool) :
    List Char → Except Misuse Cluster
  | [] =>
    if flag.takesValue then .ok ⟨[(flag, some "")], none⟩
    else .error (.unexpectedValue flag "")
  | letter :: rest =>
    if flag.takesValue then .ok ⟨[(flag, some (String.ofList (letter :: rest)))], none⟩
    else
      match short, Word.flagOf? flags (String.ofList ['-', letter]), rest with
      | true, some next, [] => .ok (cons flag (ofBare next))
      | true, some next, second :: more =>
        (ofAttached flags next true (second :: more)).map (cons flag)
      | _, _, _ => .error (.unexpectedValue flag (String.ofList (letter :: rest)))

def ofSpelling (flags : List Flag) (spelling : Spelling) : Except Misuse Cluster :=
  match spelling.attached with
  | some text => ofAttached flags spelling.flag spelling.short text
  | none => .ok (ofBare spelling.flag)

end Cluster

end ScriptLoader.CommandLine
