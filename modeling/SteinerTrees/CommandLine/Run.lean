import SteinerTrees.CommandLine.Commands
import SteinerTrees.Settings.Environment

/-! # A run of the command line

A run reads its arguments, chooses what of the log is shown, settles the solver's settings and carries out
the command. A reported failure makes the run fail with a message; any other failure ends the program. -/

namespace SteinerTrees

namespace CommandLine

/-- The variables of the environment that a run looks at. -/
def watchedVariables : List String := ["STEINERKIT_MAX_TERMINALS", "STEINERKIT_RELAXATION", "STEINERKIT_LOG_LEVEL"]

/-- What a run leaves behind: its exit code, the lines it printed, the lines of its log and its errors, and
the files. -/
structure Outcome where
  exit : Nat
  output : List String
  errors : List String
  files : Files
  deriving Repr

namespace Arguments

/-- The threshold of the shown log: everything if asked for, or what the environment names. -/
def threshold (arguments : Arguments) (env : Environment) : Except Failure Nat :=
  if arguments.verbose then .ok Level.debug.severity
  else
    let name := Text.upper ((env.lookup "STEINERKIT_LOG_LEVEL").getD "WARNING")
    match Log.thresholds.lookup name with
    | some threshold => .ok threshold
    | none => .error (.unknownLevel name)

/-- The solver's settings: those of the environment, and the arguments in place of them. -/
def solverSettings (arguments : Arguments) (env : Environment) : Except Failure SolverSettings := do
  let settings ← SolverSettings.ofEnvironment env "STEINERKIT_"
  return {
    maxTerminals := arguments.maxTerminals.getD settings.maxTerminals
    relaxation := !arguments.mergeOnly && settings.relaxation }

end Arguments

def failedEntry : LogEntry := ⟨.debug, "Command failed"⟩

/-- The lines of a log that are shown. -/
def shownLines (threshold : Nat) (log : Log) : List String := (log.shown threshold).map (·.render)

/-- Runs the command line with an environment, files and arguments. -/
def run (env : Environment) (entropy : Nat) (files : Files) (line : List String) : Except Failure Outcome := do
  let arguments ← Arguments.read line
  let threshold ← arguments.threshold env
  let script : Script Unit := do
    let settings ← Script.ofExcept (arguments.solverSettings env)
    arguments.command.script settings entropy
  let (result, session) := script.perform { files }
  match result with
  | .ok () =>
    return { exit := 0, output := session.output, errors := shownLines threshold session.log, files := session.files }
  | .error failure =>
    if failure.isReported then
      return {
        exit := 1
        output := session.output
        errors := shownLines threshold (session.log ++ [failedEntry]) ++ [s!"error: {failure.message}"]
        files := session.files }
    else throw failure

end CommandLine

end SteinerTrees
