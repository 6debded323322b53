import SteinerTrees.CommandLine.Run
import SteinerTrees.Proofs.CommandLine.Benchmarks
import SteinerTrees.Proofs.CommandLine.Commands

/-! # How a run of the command line ends

A run whose arguments can be read ends with an exit code of zero, or of one and a line that tells the failure, or it
ends the program. The latter takes an unknown level for the log, or a command that fails without a report: for a file
that cannot be read or written, for a value of the wrong type in a file of instances, for a SteinLib file of more nodes
than a list has room for, for a size that a generator refuses, for a benchmark without sizes, or for processes that
cannot be waited for. -/

namespace SteinerTrees.CommandLine

variable {env : Environment} {files : Files} {line : List String} {arguments : Arguments}

/-! ## Settings -/

/-- How a command ends the program. -/
def Command.Escapes (files : Files) : Command → Failure → Prop
  | .demo, _ => False
  | .solve source _, failure => source.Escapes files failure
  | .generate size output options, failure => options.Escapes files size output failure
  | .bench options, failure => options.Escapes files failure

/-- How a run ends the program: by the level that the environment gives for the log, or by its command. -/
inductive Arguments.Escapes (env : Environment) (files : Files) (arguments : Arguments) : Failure → Prop where
  | level {name : String} (quiet : arguments.verbose = false)
      (named : Text.upper ((env.lookup "STEINERKIT_LOG_LEVEL").getD "WARNING") = name)
      (unknown : Log.thresholds.lookup name = none) : Escapes env files arguments (.unknownLevel name)
  | command {failure : Failure} (escapes : arguments.command.Escapes files failure)
      (unreported : failure.isReported = false) : Escapes env files arguments failure

/-- What a run carries out once its arguments are read. -/
def Arguments.script (arguments : Arguments) (env : Environment) (entropy : Nat) : Script Unit := do
  let settings ← Script.ofExcept (arguments.solverSettings env)
  arguments.command.script settings entropy

/-- What comes of a script that was carried out. -/
def settle (threshold : Nat) : Except Failure Unit × Session → Except Failure Outcome
  | (.ok (), session) => .ok
      { exit := 0, output := session.output, errors := shownLines threshold session.log, files := session.files }
  | (.error failure, session) =>
    if failure.isReported then .ok {
        exit := 1
        output := session.output
        errors := shownLines threshold (session.log ++ [failedEntry]) ++ [s!"error: {failure.message}"]
        files := session.files }
    else .error failure

theorem run_eq (env : Environment) (entropy : Nat) (files : Files) (line : List String) :
    run env entropy files line = (do
      let arguments ← Arguments.read line
      let threshold ← arguments.threshold env
      settle threshold ((arguments.script env entropy).perform { files })) := by
  unfold run
  refine congrArg (Arguments.read line >>= ·) (funext fun arguments => ?_)
  refine congrArg (arguments.threshold env >>= ·) (funext fun threshold => ?_)
  generalize performed : (arguments.script env entropy).perform { files } = ended
  rw [Arguments.script] at performed
  simp only [performed]
  rcases ended with ⟨failure | ⟨⟩, session⟩ <;> rfl

/-- An outcome that tells how a script went. The exit code is zero if it succeeded; if it failed, the code is one, and
the last line of the errors is the message of the failure. -/
structure Outcome.Tells (outcome : Outcome) (result : Except Failure Unit) : Prop where
  exit : outcome.exit = 0 ∧ result = .ok () ∨ outcome.exit = 1 ∧ ∃ failure, result = .error failure
  errors : ∀ failure, result = .error failure → failure.isReported = true ∧
    outcome.errors.getLast? = some s!"error: {failure.message}"

end SteinerTrees.CommandLine
