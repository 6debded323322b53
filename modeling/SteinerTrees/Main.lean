import SteinerTrees.CommandLine.Run

/-! # The program

Gathers the arguments, the environment and the file to read, runs the command line, and carries out what
it leaves behind. -/

namespace SteinerTrees

namespace CommandLine

/-- The variables that are set. -/
def readEnvironment : IO Environment := do
  let values ← watchedVariables.mapM fun name => do return (name, ← IO.getEnv name)
  return values.filterMap fun (name, value) => value.map fun value => (name, Text.ofString value)

/-- The file that a command reads, as it is found. -/
def readInput (command : Command) : IO Files := do
  let some path := command.input? | return {}
  let place := Path.place path
  try return { documents := [(place, .bytes (← IO.FS.readBinFile (Text.plain path)).toList)] }
  catch
    | .permissionDenied .. => return { documents := [(place, .locked)] }
    | .inappropriateType .. => return { directories := [place] }
    | _ => return {}

/-- Writes the file that a command leaves behind. -/
def writeOutput (command : Command) (files : Files) : IO Unit := do
  let some path := command.output? | return
  let some document := files.at? path | return
  if Path.directory path ≠ "" then IO.FS.createDirAll (Text.plain (Path.directory path))
  match document with
  | .text content => IO.FS.writeFile (Text.plain path) (Text.plain content)
  | .sheet sheet => IO.FS.writeFile (Text.plain path) (Text.plain sheet.render)
  | .bytes _ | .locked => return

/-- A number that differs from run to run. -/
def throwSeed : IO Nat := do
  let bytes ← IO.getRandomBytes 8
  return bytes.toList.foldl (fun n byte => 256 * n + byte.toNat) 0

/-- The exit code of a run that a failure ended, with its message. -/
def endWith (failure : Failure) : IO UInt32 := do
  match failure with
  | .exit 0 =>
    Arguments.synopsis.forM IO.println
    return 0
  | .exit code =>
    Arguments.synopsis.forM IO.eprintln
    return (code % 256).toNat.toUInt32
  | other =>
    IO.eprintln (other.kind ++ ": " ++ Text.plain other.message)
    return 1

/-- Runs the command line. -/
def runWith (line : List String) : IO UInt32 := do
  match Arguments.read line with
  | .error failure => endWith failure
  | .ok arguments =>
    match run (← readEnvironment) (← throwSeed) (← readInput arguments.command) line with
    | .error failure => endWith failure
    | .ok outcome =>
      outcome.errors.forM fun line => IO.eprintln (Text.plain line)
      if outcome.exit = 0 then writeOutput arguments.command outcome.files
      outcome.output.forM fun line => IO.println (Text.plain line)
      return outcome.exit.toUInt32

end CommandLine

end SteinerTrees

def main (line : List String) : IO UInt32 :=
  SteinerTrees.CommandLine.runWith (line.map SteinerTrees.Text.ofString)
