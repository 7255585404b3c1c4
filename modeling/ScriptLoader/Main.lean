import ScriptLoader.CommandLine.Execution

/-!
The program. It reads the files below the directories that a command line can reach by name, and
then does what the command line asks for.

What is taken for granted of the world, here and in all results about the program:

* Files, devices and directories form a tree without links. A device is all that opens like a file
  and is no regular one; it reads the same at all times.
* The users and their home directories do not change.
* Command lines, the environment and the names of files are strings, and so have no surrogates. The
  name of a module that has some is taken for one with NUL characters instead. It means no file
  either, but it reads so in messages.
* The output takes what can be written as UTF-8, and nothing else goes wrong with it. What it does
  not take is a bad value; no finer kind of fault is told apart.
* Every fault has a text. Surrogates in it are shown as escapes.
* Neither the depth of recursion nor memory has a limit.
-/

namespace ScriptLoader

/-- What is below a directory, except directories, each with its place. Only regular files are read;
a directory that cannot be read has nothing below it. -/
def readTree (directory : String) : IO (List (Place × Node)) := do
  try
    let root ← IO.FS.realPath directory
    let paths ← root.walkDir
    let mut nodes := []
    for path in paths do
      let kind := (← path.metadata).type
      unless kind == .dir do
        let node ←
          try
            if kind == .file then pure (.file ⟨← IO.FS.readBinFile path, true⟩)
            else pure (.device ⟨.empty, false⟩)
          catch _ => pure (.file ⟨.empty, false⟩)
        nodes := (Path.destination path.toString, node) :: nodes
    return nodes
  catch _ => return []

/-- The users of a table of lines with seven fields: the first is the name, the sixth the home
directory. -/
def usersOf (table : String) : List (String × String) :=
  (table.splitOn "\n").filterMap fun line =>
    match line.splitOn ":" with
    | [name, _, _, _, _, home, _] => some (name, home)
    | _ => none

/-- The directories from which a command line can name files: those of the search path, and the
one of an anchored script. -/
def reachable (here : Standpoint) (environment : Option String) (arguments : List String) :
    List String :=
  match CommandLine.Invocation.ofArguments arguments with
  | .error _ => []
  | .ok invocation =>
    let listed := (invocation.settings environment).searchPath
    if Path.isAnchored invocation.argument then
      ((Path.canonicalize? here invocation.argument).map Path.directoryOf).toList ++ listed
    else listed

end ScriptLoader

open ScriptLoader in
def main (arguments : List String) : IO UInt32 := do
  let began ← IO.monoNanosNow
  let table ← try IO.FS.readFile "/etc/passwd" catch _ => pure ""
  let here : Standpoint :=
    { workingDirectory := (← IO.currentDir).toString
      home := (← IO.getEnv "HOME").getD ""
      users := usersOf table }
  let environment ← IO.getEnv Settings.variableName
  let directories := reachable here environment arguments
  let trees ← directories.mapM readTree
  let places :=
    (here.workingDirectory :: directories.filterMap (Path.canonicalize? here)).map Path.destination
  let machine : Machine :=
    { here with
      files := trees.flatten.foldl (fun files entry => files.install entry.1 entry.2)
        (.build places []) }
  match CommandLine.respond arguments environment machine with
  | none =>
    IO.eprintln "The modules nest too deeply."
    return 1
  | some (.error fault) =>
    IO.eprintln fault.message
    return 1
  | some (.ok result) =>
    let ended ← IO.monoNanosNow
    IO.print (result.outputAfter (ended - began))
    IO.eprint result.errors
    return UInt32.ofNat result.status
