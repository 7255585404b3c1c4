import ScriptLoader.CommandLine.Flag
import ScriptLoader.Number.Reading

/-!
What a command line asks for. Flags of the program stand before the command; what follows the
command is read by the command itself, with flags and the one argument in any order. Words that
nobody takes are reported last, those before the command first.
-/

namespace ScriptLoader.CommandLine

inductive Command where
  | run
  | resolve
  deriving DecidableEq

namespace Command

def all : List Command := [run, resolve]

def name : Command → String
  | run => "run"
  | resolve => "resolve"

def argument : Command → String
  | run => "script"
  | resolve => "name"

def flags : Command → List Flag
  | run => [.help, .directory, .times]
  | resolve => [.help, .directory]

def ofName? (name : String) : Option Command :=
  all.find? fun command => command.name == name

end Command

def programFlags : List Flag := [.help, .verbose]

/-- Why there is nothing to be done: help is asked for, the command line is misused, or it leaves
open how often a script is to be run. -/
inductive Refusal where
  | help (command : Option Command)
  | misuse (command : Option Command) (problem : Misuse)
  | uncounted
  deriving DecidableEq

/-- What the flags have said so far. A flag can be left without its value; of a directory it is
then only known that it cannot be searched. -/
structure Choices where
  verbose : Bool
  directories : List (Option String)
  times : Option Int
  deriving DecidableEq

namespace Choices

def none : Choices := ⟨false, [], some 1⟩

/-- The value that a flag has from the text attached to it. A double dash separates words even
here, where there are none to separate, and is no value. -/
def value? (text : String) : Option String :=
  if text = "--" then .none else some text

def take (choices : Choices) (command : Option Command) (flag : Flag) (text : String) :
    Except Refusal Choices :=
  match flag, value? text with
  | .help, _ => .error (.help command)
  | .verbose, _ => .ok { choices with verbose := true }
  | .directory, value => .ok { choices with directories := choices.directories ++ [value] }
  | .times, .none => .ok { choices with times := .none }
  | .times, some value =>
    match Number.readFreeInt? value.toList with
    | some times => .ok { choices with times }
    | .none => .error (.misuse command (.notAnInteger flag value))

def known : List (Option String) → List String
  | some directory :: rest => directory :: known rest
  | _ => []

def takeAll (choices : Choices) (command : Option Command) :
    List (Flag × Option String) → Except Refusal Choices
  | [] => .ok choices
  | (flag, value) :: rest =>
    match choices.take command flag (value.getD "") with
    | .error refusal => .error refusal
    | .ok choices => choices.takeAll command rest

end Choices

/-- A command line as far as it has been read: the choices, the words that nobody took, and the
argument or the command with the words behind it. -/
structure Reading (α : Type) where
  choices : Choices
  leftover : List String
  found : Option α

namespace Reading

def start {α : Type} : Reading α := ⟨.none, [], none⟩

def leave {α : Type} (reading : Reading α) (text : String) : Reading α :=
  { reading with leftover := reading.leftover ++ [text] }

/-- Takes the word of a flag into account, and the word after it if the flag needs a value. The
result says whether the latter was used. -/
def takeFlag {α : Type} (reading : Reading α) (flags : List Flag) (command : Option Command)
    (spelling : Spelling) (following : List (Word × String)) :
    Except Refusal (Reading α × Bool) :=
  match Cluster.ofSpelling flags spelling with
  | .error misuse => .error (.misuse command misuse)
  | .ok cluster =>
    match cluster.waiting, following with
    | none, _ =>
      (reading.choices.takeAll command cluster.given).map fun choices =>
        ({ reading with choices }, false)
    | some flag, (.plain _, value) :: _ =>
      (reading.choices.takeAll command (cluster.given ++ [(flag, some value)])).map fun choices =>
        ({ reading with choices }, true)
    | some flag, _ => .error (.misuse command (.missingValue flag))

def ofCommand (command : Command) : Reading String → List (Word × String) →
    Except Refusal (Reading String)
  | reading, [] => .ok reading
  | reading, (.plain _, text) :: (.separator, mark) :: rest =>
    match reading.found with
    | none => ofCommand command { reading with found := some text } rest
    | some _ => ofCommand command ((reading.leave text).leave mark) rest
  | reading, (.plain _, text) :: rest =>
    match reading.found with
    | none => ofCommand command { reading with found := some text } rest
    | some _ => ofCommand command (reading.leave text) rest
  | reading, (.separator, mark) :: (.plain _, text) :: rest =>
    match reading.found with
    | none => ofCommand command { reading with found := some text } rest
    | some _ => ofCommand command ((reading.leave mark).leave text) rest
  | reading, (.separator, mark) :: rest => ofCommand command (reading.leave mark) rest
  | reading, (.unknownFlag _, text) :: rest => ofCommand command (reading.leave text) rest
  | reading, (.flag spelling, _) :: rest =>
    match reading.takeFlag command.flags (some command) spelling rest with
    | .error refusal => .error refusal
    | .ok (reading, false) => ofCommand command reading rest
    | .ok (reading, true) => ofCommand command reading rest.tail
  termination_by _ words => words.length

def ofProgram : Reading (Command × List String) → List (Word × String) →
    Except Refusal (Reading (Command × List String))
  | reading, [] => .ok reading
  | reading, (.plain _, text) :: rest =>
    match Command.ofName? text with
    | some command => .ok { reading with found := some (command, rest.map (·.2)) }
    | none => .error (.misuse none (.unknownCommand text (Command.all.map Command.name)))
  | reading, (.separator, mark) :: [] => .ok (reading.leave mark)
  | _, (.separator, mark) :: _ :: _ =>
    .error (.misuse none (.unknownCommand mark (Command.all.map Command.name)))
  | reading, (.unknownFlag _, text) :: rest => ofProgram (reading.leave text) rest
  | reading, (.flag spelling, _) :: rest =>
    match reading.takeFlag programFlags none spelling rest with
    | .error refusal => .error refusal
    | .ok (reading, _) => ofProgram reading rest
  termination_by _ words => words.length

end Reading

/-- What is to be done: the command with its argument, the directories to search first, whether
nothing can be searched behind them, how often a script is to be run, and whether what happens is
to be told. -/
structure Invocation where
  command : Command
  argument : String
  directories : List String
  obstructed : Bool
  times : Nat
  verbose : Bool
  deriving DecidableEq

def classified (command : Option Command) (flags : List Flag) (texts : List String) :
    Except Refusal (List (Word × String)) :=
  (Word.classifyAll flags texts).mapError (.misuse command)

namespace Invocation

def ofArguments (arguments : List String) : Except Refusal Invocation := do
  let words ← classified none programFlags arguments
  let outer ← Reading.ofProgram .start words
  match outer.found with
  | none => .error (.misuse none (.missing "command"))
  | some (command, texts) =>
    let words ← classified (some command) command.flags texts
    let inner ← Reading.ofCommand command .start words
    match inner.found with
    | none => .error (.misuse (some command) (.missing command.argument))
    | some argument =>
      match outer.leftover ++ inner.leftover with
      | word :: rest => .error (.misuse none (.unrecognized (word :: rest)))
      | [] =>
        match inner.choices.times with
        | none => .error .uncounted
        | some times =>
          if times < 1 then .error (.misuse none .tooFewRuns)
          else
            .ok
              { command
                argument
                directories := Choices.known inner.choices.directories
                obstructed := inner.choices.directories.contains none
                times := times.toNat
                verbose := outer.choices.verbose }

end Invocation

namespace Refusal

def speaker : Option Command → String
  | none => "illoader"
  | some command => "illoader " ++ command.name

def line (command : Option Command) (problem : Misuse) : String :=
  speaker command ++ ": error: " ++ problem.message

end Refusal

end ScriptLoader.CommandLine
