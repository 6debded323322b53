import SteinerTrees.Algorithm
import SteinerTrees.Benchmark.Instances
import SteinerTrees.ProblemClass
import SteinerTrees.Verdict

/-! # Benchmark runs

A run measures every algorithm on every instance, a number of times. A failure of an algorithm becomes a
row of its own and does not stop the run; a failure to check a solution or to describe an instance ends
it. In a process of its own an algorithm may also end or hang without harm, and its log is not seen; in
this process it ends the run or keeps it for ever. Times are not measured here: a stopped run takes its time
limit, every other run no time. -/

namespace SteinerTrees

/-- One measurement to be made; `position` counts the measurements of its algorithm from one. -/
structure Task where
  algorithm : Algorithm
  problem : Problem
  run : Nat
  position : Nat

/-- What a run has told so far: its log, the reports of progress, and its rows. -/
structure Progress where
  log : Log := []
  calls : List (String × Nat × Nat) := []
  rows : List Measurement := []

namespace Task

/-- What an instance is called. -/
def problemName (task : Task) : Value := (Value.lookup? "instance_name" task.problem).getD .null

/-- The log entry whose text is about the name of the instance. An entry that cannot be written is lost. -/
def entry (task : Task) (level : Level) (text : String → String) : Log :=
  if task.problemName.isWritable then [⟨level, text task.problemName.display⟩] else []

/-- How an algorithm ended, in the terms of a row. -/
structure Outcome where
  solution : Option Value := none
  status : RunStatus := .error
  message : String := ""
  wallTime : Binary64 := .ofInt 0

/-- The outcome of a failure, unless its message cannot be written. -/
def failedOutcome (failure : Failure) : Except Failure Outcome :=
  if failure.isWritable then .ok { message := s!"{failure.kind}: {failure.message}" } else .error .unwritable

def nothingOutcome : Outcome := { message := "Algorithm returned None" }

/-- The outcome of a process that ended without an answer. -/
def exitedOutcome (code : Int) : Outcome := { message := s!"Worker exited with code {code % 256}" }

def stoppedOutcome (timeout : Binary64) : Outcome where
  status := .timeout
  message := s!"Hard timeout after {timeout.shown}s"
  wallTime := timeout

/-- The outcome of an attempt in this process, if the run goes on after it. -/
def outcomeHere : Attempt → Except Failure Outcome
  | .returned .null | .nothing => .ok nothingOutcome
  | .returned solution => .ok { solution, status := .success }
  | .failed failure => failedOutcome failure
  | .exited code => .error (.exit code)
  | .silent => .error .hanging

/-- The outcome of an attempt in a process of its own, where a failure that cannot be described ends the process. -/
def outcomeApart (timeout : Binary64) : Attempt → Outcome
  | .returned .null | .nothing => nothingOutcome
  | .returned solution => { solution, status := .success }
  | .failed failure => (failedOutcome failure).toOption.getD (exitedOutcome 1)
  | .exited code => exitedOutcome code
  | .silent => stoppedOutcome timeout

/-- How many seconds a process has beyond its time limit to report. -/
def grace : Int := 5

/-- Whether a time limit is longer than the system can wait: `2 ^ 31` milliseconds or more, or without end. -/
def isTooLong (timeout : Binary64) : Bool :=
  let wait := timeout.addInt grace
  let milliseconds := Binary64.ofRatio false (wait.numerator * 1000) wait.denominator
  !wait.negative && !(wait.isFinite && milliseconds.isFinite &&
    milliseconds.numerator ≤ (Nat.pow 2 31 - 1) * milliseconds.denominator)

/-- Runs the algorithm of a task in this process. -/
def attemptHere (task : Task) : Log × Except Failure Outcome :=
  let (log, attempt) := task.algorithm.solve (.dict task.problem)
  let entries := match attempt with
    | .failed _ => task.entry .debug fun name => s!"{task.algorithm.name} failed on {name}"
    | _ => []
  (log ++ entries, outcomeHere attempt)

/-- Runs the algorithm of a task in a process of its own. -/
def attemptApart (task : Task) (timeout : Binary64) : Log × Except Failure Outcome :=
  if isTooLong timeout then ([], .error .waitTooLong)
  else
    let attempt := (task.algorithm.solve (.dict task.problem)).2
    let entries := match attempt with
      | .silent => task.entry .warning fun name =>
        s!"{task.algorithm.name} exceeded {timeout.renderFixedOne}s on {name}, terminating worker"
      | _ => []
    (entries, .ok (outcomeApart timeout attempt))

/-- Runs the algorithm of a task. -/
def attempt (task : Task) (parallel : Bool) (timeout : Binary64) : Log × Except Failure Outcome :=
  if parallel then task.attemptApart timeout else task.attemptHere

/-- Checks a solution: its objective if it is feasible, or a warning. -/
def assess (task : Task) (solution : Value) : Except Failure (Log × Option Nat) := do
  match ← Solution.check (.dict task.problem) solution with
  | .feasible edges => return ([], some edges)
  | .infeasible objection _ =>
    return (task.entry .warning fun name =>
      s!"{task.algorithm.name} produced an infeasible solution on {name}: " ++ objection.message, none)

/-- The row of an outcome. Its description of the instance is checked like any setting. -/
def row (task : Task) (outcome : Outcome) (objective : Option Nat) : Except Failure Measurement := do
  let metadata := (Value.lookup? "metadata" task.problem).getD (.dict [])
  let generator ← metadata.get "generator" (.text "custom")
  let nodes ← ((Value.lookup? "nodes" task.problem).getD (.list [])).length
  let size ← metadata.get "size" (.int nodes)
  let terminals ← ((Value.lookup? "terminals" task.problem).getD (.list [])).length
  Measurement.ofEntries [
    ("algorithm_name", .text task.algorithm.name),
    ("instance_name", (Value.lookup? "instance_name" task.problem).getD (.text "unknown")),
    ("instance_generator", generator),
    ("problem_size", size),
    ("num_terminals", .int terminals),
    ("objective_value", (objective.map fun edges => .float (.ofInt edges)).getD .null),
    ("wall_time_seconds", .float outcome.wallTime),
    ("status", .text outcome.status.name),
    ("run_index", .int task.run),
    ("feasible", .bool objective.isSome),
    ("error_message", .text outcome.message)]

/-- Carries out a task: what it logs, and its row. -/
def measure (task : Task) (parallel : Bool) (timeout : Binary64) : Log × Except Failure Measurement :=
  match task.attempt parallel timeout with
  | (log, .error failure) => (log, .error failure)
  | (log, .ok outcome) =>
    match outcome.solution with
    | none => (log, task.row outcome none)
    | some solution =>
      match task.assess solution with
      | .ok (entries, objective) => (log ++ entries, task.row outcome objective)
      | .error failure => (log, .error failure)

end Task

namespace Benchmark

/-- The tasks of one algorithm: instance by instance, run by run. -/
def tasksOf (problems : List Problem) (runs : Nat) (algorithm : Algorithm) : List Task :=
  ((problems.flatMap fun problem => (List.range runs).map fun run => (problem, run)).zipIdx 1).map
    fun ((problem, run), position) => { algorithm, problem, run, position }

def tasks (algorithms : List Algorithm) (problems : List Problem) (runs : Nat) : List Task :=
  algorithms.flatMap (tasksOf problems runs)

/-- Carries out tasks in order, of which each algorithm has `total`. -/
def carryOut (parallel : Bool) (timeout : Binary64) (total : Nat) (progress : Progress) :
    List Task → Progress × Except Failure Unit
  | [] => (progress, .ok ())
  | task :: rest =>
    let (log, result) := task.measure parallel timeout
    match result with
    | .error failure => ({ progress with log := progress.log ++ log }, .error failure)
    | .ok row =>
      carryOut parallel timeout total
        { log := progress.log ++ log
          calls := progress.calls ++ [(task.algorithm.name, task.position, total)]
          rows := progress.rows ++ [row] } rest

def completeEntry (rows : List Measurement) : LogEntry :=
  ⟨.info, s!"Benchmark complete: {rows.length} results collected"⟩

/-- Runs a benchmark on given instances. -/
def runOn (settings : BenchmarkSettings) (algorithms : List Algorithm) (parallel : Bool) (problems : List Problem) :
    Progress × Except Failure (List Measurement) :=
  match ProblemClass.ofName (.text settings.problemClass) with
  | .error failure => ({}, .error failure)
  | .ok _ =>
    let runs := settings.execution.runs.toNat
    let (progress, result) := carryOut parallel settings.execution.timeout (problems.length * runs) {}
      (tasks algorithms problems runs)
    match result with
    | .error failure => (progress, .error failure)
    | .ok () => ({ progress with log := progress.log ++ [completeEntry progress.rows] }, .ok progress.rows)

/-- Runs a benchmark. Instances that were built before are used again; otherwise they are built first.
The instances are returned for the next run. -/
def run (settings : BenchmarkSettings) (algorithms : List Algorithm) (parallel : Bool) (built : List Problem) :
    Progress × Except Failure (List Problem × List Measurement) :=
  if algorithms.isEmpty then ({}, .error .noAlgorithms)
  else if !built.isEmpty then
    let (progress, result) := runOn settings algorithms parallel built
    (progress, result.map fun rows => (built, rows))
  else
    match settings.instances.build with
    | .error failure => ({}, .error failure)
    | .ok problems =>
      let (progress, result) := runOn settings algorithms parallel problems
      ({ progress with log := generatedEntry problems :: progress.log }, result.map fun rows => (problems, rows))

end Benchmark

end SteinerTrees
