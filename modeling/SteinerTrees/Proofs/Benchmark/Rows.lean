import SteinerTrees.Benchmark.Run
import SteinerTrees.Proofs.Settings.Checks

/-! # Rows of a benchmark

A row describes an instance and tells how an algorithm ended on it. The description reads five entries of the instance;
all else that stands in a row passes its check, whatever the outcome. -/

namespace SteinerTrees

variable {task : Task} {problem : Problem} {outcome : Task.Outcome} {objective : Option Nat} {m : Measurement}
  {name generator : String} {size : Int} {terminals : Nat}

theorem Checked.text_eq_ok_iff {value : Value} {s : String} : text value = .ok s ↔ value = .text s := by
  cases value <;> simp [text, fault]

theorem Value.get_eq_ok_iff {value found default : Value} {name : String} : value.get name default = .ok found ↔
    ∃ entries, value = .dict entries ∧ (lookup? name entries).getD default = found := by
  cases value <;> simp [get]

theorem RunStatus.check_name (status : RunStatus) : check (.text status.name) = .ok status := by
  cases status <;> rfl

namespace Measurement

/-- A measurement is read if each of its fields is. -/
theorem check_eq_ok_iff {entries : List (String × Value)} : check entries = .ok m ↔
    Checked.field "algorithm_name" none Checked.text entries = .ok m.algorithm ∧
    Checked.field "instance_name" none Checked.text entries = .ok m.instanceName ∧
    Checked.field "instance_generator" none Checked.text entries = .ok m.generator ∧
    Checked.field "problem_size" none Checked.integer entries = .ok m.problemSize ∧
    Checked.field "num_terminals" (some 0) Checked.integer entries = .ok m.numTerminals ∧
    Checked.field "objective_value" (some none) optionalNumber entries = .ok m.objective ∧
    Checked.field "wall_time_seconds" (some (.ofInt 0)) Checked.number entries = .ok m.wallTime ∧
    Checked.field "peak_memory_mb" (some (.ofInt 0)) Checked.number entries = .ok m.peakMemory ∧
    Checked.field "status" (some .success) RunStatus.check entries = .ok m.status ∧
    Checked.field "run_index" (some 0) Checked.integer entries = .ok m.runIndex ∧
    Checked.field "feasible" (some true) Checked.truth entries = .ok m.feasible ∧
    Checked.field "error_message" (some "") Checked.text entries = .ok m.errorMessage := by
  constructor
  · intro passed
    obtain ⟨_, _, passed, told, same_told⟩ := Checked.seq_eq_ok_iff.mp passed
    obtain ⟨_, _, passed, judged, same_judged⟩ := Checked.seq_eq_ok_iff.mp passed
    obtain ⟨_, _, passed, placed, same_placed⟩ := Checked.seq_eq_ok_iff.mp passed
    obtain ⟨_, _, passed, ended, same_ended⟩ := Checked.seq_eq_ok_iff.mp passed
    obtain ⟨_, _, passed, weighed, same_weighed⟩ := Checked.seq_eq_ok_iff.mp passed
    obtain ⟨_, _, passed, timed, same_timed⟩ := Checked.seq_eq_ok_iff.mp passed
    obtain ⟨_, _, passed, aimed, same_aimed⟩ := Checked.seq_eq_ok_iff.mp passed
    obtain ⟨_, _, passed, counted, same_counted⟩ := Checked.seq_eq_ok_iff.mp passed
    obtain ⟨_, _, passed, sized, same_sized⟩ := Checked.seq_eq_ok_iff.mp passed
    obtain ⟨_, _, passed, generated, same_generated⟩ := Checked.seq_eq_ok_iff.mp passed
    obtain ⟨_, _, passed, called, same_called⟩ := Checked.seq_eq_ok_iff.mp passed
    obtain ⟨_, algorithm, rfl⟩ := Checked.map_eq_ok_iff.mp passed
    subst same_called same_generated same_sized same_counted same_aimed same_timed same_weighed same_ended same_placed
      same_judged same_told
    exact ⟨algorithm, called, generated, sized, counted, aimed, timed, weighed, ended, placed, judged, told⟩
  · rintro ⟨algorithm, called, generated, sized, counted, aimed, timed, weighed, ended, placed, judged, told⟩
    have passed := (Checked.map_eq_ok_iff (f := mk)).mpr ⟨_, algorithm, rfl⟩
    replace passed := Checked.seq_eq_ok_iff.mpr ⟨_, _, passed, called, rfl⟩
    replace passed := Checked.seq_eq_ok_iff.mpr ⟨_, _, passed, generated, rfl⟩
    replace passed := Checked.seq_eq_ok_iff.mpr ⟨_, _, passed, sized, rfl⟩
    replace passed := Checked.seq_eq_ok_iff.mpr ⟨_, _, passed, counted, rfl⟩
    replace passed := Checked.seq_eq_ok_iff.mpr ⟨_, _, passed, aimed, rfl⟩
    replace passed := Checked.seq_eq_ok_iff.mpr ⟨_, _, passed, timed, rfl⟩
    replace passed := Checked.seq_eq_ok_iff.mpr ⟨_, _, passed, weighed, rfl⟩
    replace passed := Checked.seq_eq_ok_iff.mpr ⟨_, _, passed, ended, rfl⟩
    replace passed := Checked.seq_eq_ok_iff.mpr ⟨_, _, passed, placed, rfl⟩
    replace passed := Checked.seq_eq_ok_iff.mpr ⟨_, _, passed, judged, rfl⟩
    exact Checked.seq_eq_ok_iff.mpr ⟨_, _, passed, told, rfl⟩

/-- The objective of a row is checked like any number, and passes. -/
theorem optionalNumber_objective (objective : Option Nat) :
    optionalNumber ((objective.map fun edges : Nat => Value.float (.ofInt edges)).getD .null) =
      .ok (objective.map fun edges : Nat => Binary64.ofInt edges) := by
  cases objective <;> rfl

end Measurement

/-- What a row says about an instance. -/
structure Problem.Described (problem : Problem) (name generator : String) (size : Int) (terminals : Nat) : Prop where
  name : (Value.lookup? "instance_name" problem).getD (.text "unknown") = .text name
  /-- The size that the metadata give counts, else the number of nodes, which has to exist in any case. -/
  metadata : ∃ metadata nodes, (Value.lookup? "metadata" problem).getD (.dict []) = .dict metadata ∧
    (Value.lookup? "generator" metadata).getD (.text "custom") = .text generator ∧
    ((Value.lookup? "nodes" problem).getD (.list [])).length = .ok nodes ∧
    Checked.integer ((Value.lookup? "size" metadata).getD (.int nodes)) = .ok size
  terminals : ((Value.lookup? "terminals" problem).getD (.list [])).length = .ok terminals

namespace Task

/-- The row of an outcome on an instance that is described. -/
def rowOf (task : Task) (outcome : Outcome) (objective : Option Nat) (name generator : String) (size : Int)
    (terminals : Nat) : Measurement where
  algorithm := task.algorithm.name
  instanceName := name
  generator
  problemSize := size
  numTerminals := terminals
  objective := objective.map fun edges : Nat => .ofInt edges
  wallTime := outcome.wallTime
  status := outcome.status
  runIndex := task.run
  feasible := objective.isSome
  errorMessage := outcome.message

/-- An instance that is described has a row for every outcome. -/
theorem row_of_described (described : task.problem.Described name generator size terminals) (outcome : Outcome)
    (objective : Option Nat) :
    task.row outcome objective = .ok (task.rowOf outcome objective name generator size terminals) := by
  obtain ⟨named, ⟨metadata, nodes, found, generated, listed, sized⟩, counted⟩ := described
  simp only [row, found, Value.get, generated, listed, counted, named, bind, Except.bind]
  refine Checked.toExcept_eq_ok_iff.mpr (Measurement.check_eq_ok_iff.mpr ⟨rfl, rfl, rfl, ?_, rfl, ?_, rfl, rfl, ?_, rfl,
    rfl, rfl⟩)
  · exact (Checked.field_eq_ok_iff rfl).mpr sized
  · exact (Checked.field_eq_ok_iff rfl).mpr (Measurement.optionalNumber_objective objective)
  · exact (Checked.field_eq_ok_iff rfl).mpr (RunStatus.check_name outcome.status)

/-- There is a row exactly if the instance is described. -/
theorem row_eq_ok_iff : task.row outcome objective = .ok m ↔ ∃ name generator size terminals,
    task.problem.Described name generator size terminals ∧
      m = task.rowOf outcome objective name generator size terminals := by
  constructor
  · intro made
    obtain ⟨_, found, read⟩ := bind_eq_ok_iff.mp made
    obtain ⟨metadata, described, rfl⟩ := Value.get_eq_ok_iff.mp found
    obtain ⟨nodes, listed, read⟩ := bind_eq_ok_iff.mp read
    obtain ⟨_, again, read⟩ := bind_eq_ok_iff.mp read
    obtain ⟨terminals, counted, checked⟩ := bind_eq_ok_iff.mp read
    obtain ⟨_, same, rfl⟩ := Value.get_eq_ok_iff.mp again
    obtain rfl := Value.dict.inj (described.symm.trans same)
    obtain ⟨-, called, generated, sized, -⟩ :=
      Measurement.check_eq_ok_iff.mp (Checked.toExcept_eq_ok_iff.mp checked)
    have name := Checked.text_eq_ok_iff.mp ((Checked.field_eq_ok_iff rfl).mp called)
    have origin := Checked.text_eq_ok_iff.mp ((Checked.field_eq_ok_iff rfl).mp generated)
    have size := (Checked.field_eq_ok_iff rfl).mp sized
    have whole : task.problem.Described _ _ _ _ := ⟨name, ⟨metadata, nodes, described, origin, listed, size⟩, counted⟩
    exact ⟨_, _, _, _, whole, Except.ok.inj (made.symm.trans (row_of_described whole outcome objective))⟩
  · rintro ⟨name, generator, size, terminals, described, rfl⟩
    exact row_of_described described outcome objective

/-- What a row tells of a failure: its message, or that a process which could not write it has ended. -/
def toldOf (failure : Failure) : String :=
  if failure.isWritable then s!"{failure.kind}: {failure.message}" else "Worker exited with code 1"

/-! ## How an algorithm ended -/

/-- What an outcome tells of an attempt. -/
structure Outcome.Tells (outcome : Outcome) (attempt : Attempt) : Prop where
  solution : ∀ solution, outcome.solution = some solution ↔ attempt = .returned solution ∧ solution ≠ .null
  success : outcome.solution.isSome = true → outcome.status = .success
  failed : ∀ failure, attempt = .failed failure → outcome.status = .error ∧ outcome.message = toldOf failure
  nothing : attempt = .nothing ∨ attempt = .returned .null → outcome.status = .error ∧
    outcome.message = "Algorithm returned None"

/-- An outcome without a solution tells nothing of an answer. -/
theorem Outcome.Tells.of_none {attempt : Attempt} (unanswered : outcome.solution = none)
    (absent : ∀ solution, attempt = .returned solution → solution = .null)
    (failed : ∀ failure, attempt = .failed failure → outcome.status = .error ∧ outcome.message = toldOf failure)
    (nothing : attempt = .nothing ∨ attempt = .returned .null → outcome.status = .error ∧
      outcome.message = "Algorithm returned None") : outcome.Tells attempt where
  solution solution := by
    rw [unanswered]
    exact iff_of_false nofun fun both => both.2 (absent solution both.1)
  success some := by
    rw [unanswered] at some
    cases some
  failed
  nothing

theorem tells_returned {solution : Value} (present : solution ≠ .null) :
    ({ solution, status := .success } : Outcome).Tells (.returned solution) where
  solution other := by
    simp only [Option.some.injEq, Attempt.returned.injEq]
    constructor
    · rintro rfl
      exact ⟨rfl, present⟩
    · exact And.left
  success _ := rfl
  failed := nofun
  nothing := by
    rintro (same | same)
    · cases same
    · exact absurd (Attempt.returned.inj same) present

theorem tells_nothing {attempt : Attempt} (nothing : attempt = .nothing ∨ attempt = .returned .null) :
    nothingOutcome.Tells attempt := by
  refine .of_none rfl ?_ ?_ fun _ => ⟨rfl, rfl⟩
  · rintro solution rfl
    rcases nothing with same | same
    · cases same
    · exact Attempt.returned.inj same
  · rintro failure rfl
    rcases nothing with same | same <;> cases same

/-- An attempt after which a run in the same process goes on. -/
inductive Settles : Attempt → Prop where
  | returned (solution : Value) : Settles (.returned solution)
  | nothing : Settles .nothing
  | failed {failure : Failure} (writable : failure.isWritable = true) : Settles (.failed failure)

theorem tells_failed {failure : Failure} (message : outcome.message = toldOf failure) (error : outcome.status = .error)
    (unanswered : outcome.solution = none) : outcome.Tells (.failed failure) := by
  refine .of_none unanswered nofun (fun other same => ?_) (by rintro (same | same) <;> cases same)
  cases same
  exact ⟨error, message⟩

theorem outcomeHere_cases (attempt : Attempt) :
    (Settles attempt ∧ ∃ outcome, outcomeHere attempt = .ok outcome ∧ outcome.Tells attempt) ∨
    (¬ Settles attempt ∧ ∃ failure, outcomeHere attempt = .error failure) := by
  cases attempt with
  | returned solution =>
    refine .inl ⟨.returned solution, ?_⟩
    by_cases null : solution = .null
    · subst null
      exact ⟨_, rfl, tells_nothing (.inr rfl)⟩
    · refine ⟨{ solution, status := .success }, ?_, tells_returned null⟩
      unfold outcomeHere
      split <;> first | rfl | simp_all
  | nothing => exact .inl ⟨.nothing, _, rfl, tells_nothing (.inl rfl)⟩
  | failed failure =>
    by_cases writable : failure.isWritable = true
    · exact .inl ⟨.failed writable, _, if_pos writable, tells_failed (if_pos writable).symm rfl rfl⟩
    · refine .inr ⟨?_, .unwritable, if_neg writable⟩
      intro settles
      cases settles with
      | failed other => exact writable other
  | exited code => exact .inr ⟨nofun, _, rfl⟩
  | silent => exact .inr ⟨nofun, _, rfl⟩

theorem tells_outcomeApart (timeout : Binary64) (attempt : Attempt) :
    (outcomeApart timeout attempt).Tells attempt := by
  cases attempt with
  | returned solution =>
    by_cases null : solution = .null
    · subst null
      exact tells_nothing (.inr rfl)
    · have same : outcomeApart timeout (.returned solution) = { solution, status := .success } := by
        unfold outcomeApart
        split <;> first | rfl | simp_all
      rw [same]
      exact tells_returned null
  | nothing => exact tells_nothing (.inl rfl)
  | failed failure =>
    by_cases writable : failure.isWritable = true
    · have same : outcomeApart timeout (.failed failure) = { message := s!"{failure.kind}: {failure.message}" } := by
        simp only [outcomeApart, failedOutcome, if_pos writable, Except.toOption, Option.getD_some]
      rw [same]
      exact tells_failed (if_pos writable).symm rfl rfl
    · have same : outcomeApart timeout (.failed failure) = exitedOutcome 1 := by
        simp only [outcomeApart, failedOutcome, if_neg writable, Except.toOption, Option.getD_none]
      rw [same]
      exact tells_failed (if_neg writable).symm rfl rfl
  | exited code => exact .of_none rfl nofun nofun (by rintro (same | same) <;> cases same)
  | silent => exact .of_none rfl nofun nofun (by rintro (same | same) <;> cases same)

/-- Whether a run goes on after an attempt. In a process of its own only a time limit that is too long ends it. -/
def GoesOn (task : Task) (parallel : Bool) (timeout : Binary64) : Prop :=
  if parallel then isTooLong timeout = false else Settles (task.algorithm.solve (.dict task.problem)).2

theorem goesOn_here {timeout : Binary64} :
    task.GoesOn false timeout ↔ Settles (task.algorithm.solve (.dict task.problem)).2 := Iff.rfl

theorem attempt_here (task : Task) (timeout : Binary64) :
    (task.attempt false timeout).2 = outcomeHere (task.algorithm.solve (.dict task.problem)).2 := rfl

theorem attempt_apart (task : Task) (timeout : Binary64) : (task.attempt true timeout).2 =
    if isTooLong timeout then .error .waitTooLong
    else .ok (outcomeApart timeout (task.algorithm.solve (.dict task.problem)).2) := by
  rw [attempt, if_pos rfl, attemptApart]
  split <;> rfl

theorem attempt_cases (task : Task) (parallel : Bool) (timeout : Binary64) :
    (task.GoesOn parallel timeout ∧ ∃ log outcome, task.attempt parallel timeout = (log, .ok outcome) ∧
      outcome.Tells (task.algorithm.solve (.dict task.problem)).2) ∨
    (¬ task.GoesOn parallel timeout ∧ ∃ log failure, task.attempt parallel timeout = (log, .error failure)) := by
  cases parallel with
  | true =>
    cases long : isTooLong timeout with
    | true =>
      refine .inr ⟨fun goesOn => ?_, (task.attempt true timeout).1, .waitTooLong, Prod.ext rfl ?_⟩
      · rw [GoesOn, if_pos rfl, long] at goesOn
        cases goesOn
      · rw [attempt_apart, if_pos long]
    | false =>
      refine .inl ⟨by rwa [GoesOn, if_pos rfl], (task.attempt true timeout).1, _, Prod.ext rfl ?_,
        tells_outcomeApart timeout _⟩
      rw [attempt_apart, if_neg (Bool.eq_false_iff.mp long)]
  | false =>
    rw [goesOn_here]
    rcases outcomeHere_cases (task.algorithm.solve (.dict task.problem)).2 with
      ⟨settles, outcome, ended, tells⟩ | ⟨unsettled, failure, ended⟩
    · exact .inl ⟨settles, _, outcome, congrArg (Prod.mk _) ended, tells⟩
    · exact .inr ⟨unsettled, _, failure, congrArg (Prod.mk _) ended⟩

/-! ## Rows of tasks -/

/-- Whether a task has a row: the run goes on after it, its instance is described, and an answer of its algorithm comes
to a verdict. -/
structure Measurable (task : Task) (parallel : Bool) (timeout : Binary64) : Prop where
  goesOn : task.GoesOn parallel timeout
  described : ∃ name generator size terminals, task.problem.Described name generator size terminals
  judged : ∀ solution, (task.algorithm.solve (.dict task.problem)).2 = .returned solution → solution ≠ .null →
    ∃ verdict, Solution.check (.dict task.problem) solution = .ok verdict

/-- A row that records how a task ended. A failure of the algorithm is an error in its row. -/
structure Records (task : Task) (row : Measurement) : Prop where
  algorithm : row.algorithm = task.algorithm.name
  run : row.runIndex = task.run
  described : ∃ terminals : Nat, row.numTerminals = terminals ∧
    task.problem.Described row.instanceName row.generator row.problemSize terminals
  failed : ∀ failure, (task.algorithm.solve (.dict task.problem)).2 = .failed failure →
    row.status = .error ∧ row.errorMessage = toldOf failure ∧ row.feasible = false
  nothing : (task.algorithm.solve (.dict task.problem)).2 ∈ [.nothing, .returned .null] →
    row.status = .error ∧ row.errorMessage = "Algorithm returned None" ∧ row.feasible = false
  answered : ∀ solution, (task.algorithm.solve (.dict task.problem)).2 = .returned solution → solution ≠ .null →
    row.status = .success ∧ ∃ verdict, Solution.check (.dict task.problem) solution = .ok verdict ∧
      row.feasible = verdict.isFeasible ∧ ∀ edges : Nat, verdict = .feasible edges → row.objective = some (.ofInt edges)

/-- A check that comes to a verdict gives the objective of a feasible solution, and every other check fails. -/
theorem assess_cases (task : Task) (solution : Value) :
    (∃ verdict entries objective, Solution.check (.dict task.problem) solution = .ok verdict ∧
      task.assess solution = .ok (entries, objective) ∧ objective.isSome = verdict.isFeasible ∧
      ∀ edges, verdict = .feasible edges → objective = some edges) ∨
    ∃ failure, Solution.check (.dict task.problem) solution = .error failure ∧
      task.assess solution = .error failure := by
  unfold assess
  cases Solution.check (.dict task.problem) solution with
  | error failure => exact .inr ⟨failure, rfl, rfl⟩
  | ok verdict =>
    cases verdict with
    | feasible edges =>
      exact .inl ⟨_, [], some edges, rfl, rfl, rfl, fun _ same => congrArg some (Verdict.feasible.inj same)⟩
    | infeasible objection edges => exact .inl ⟨_, _, none, rfl, rfl, rfl, nofun⟩

/-- There is no row without a description. -/
theorem exists_failure_of_row (task : Task) (outcome : Outcome) (objective : Option Nat)
    (undescribed : ¬ ∃ name generator size terminals, task.problem.Described name generator size terminals) :
    ∃ failure, task.row outcome objective = .error failure := by
  cases made : task.row outcome objective with
  | error failure => exact ⟨failure, rfl⟩
  | ok m =>
    obtain ⟨name, generator, size, terminals, described, -⟩ := row_eq_ok_iff.mp made
    exact absurd ⟨name, generator, size, terminals, described⟩ undescribed

/-- The row of a failed attempt records it. -/
theorem records_of_none {attempt : Attempt} (described : task.problem.Described name generator size terminals)
    (ended : (task.algorithm.solve (.dict task.problem)).2 = attempt) (tells : outcome.Tells attempt)
    (unanswered : outcome.solution = none) : task.Records (task.rowOf outcome none name generator size terminals) where
  algorithm := rfl
  run := rfl
  described := ⟨terminals, rfl, described⟩
  failed failure same := by
    obtain ⟨status, message⟩ := tells.failed failure (ended ▸ same)
    exact ⟨status, message, rfl⟩
  nothing member := by
    obtain ⟨status, message⟩ := tells.nothing (by simpa [ended] using member)
    exact ⟨status, message, rfl⟩
  answered solution same present := by
    have answer := (tells.solution solution).mpr ⟨ended ▸ same, present⟩
    rw [unanswered] at answer
    cases answer

/-- The row of an answer records its verdict. -/
theorem records_of_answer {solution : Value} {verdict : Verdict}
    (described : task.problem.Described name generator size terminals)
    (answer : (task.algorithm.solve (.dict task.problem)).2 = .returned solution) (present : solution ≠ .null)
    (success : outcome.status = .success) (checked : Solution.check (.dict task.problem) solution = .ok verdict)
    (feasible : objective.isSome = verdict.isFeasible)
    (edges : ∀ edges, verdict = .feasible edges → objective = some edges) :
    task.Records (task.rowOf outcome objective name generator size terminals) where
  algorithm := rfl
  run := rfl
  described := ⟨terminals, rfl, described⟩
  failed failure same := by
    rw [answer] at same
    cases same
  nothing member := by
    rw [answer, List.mem_pair] at member
    rcases member with same | same
    · cases same
    · exact absurd (Attempt.returned.inj same) present
  answered other same _ := by
    obtain rfl := Attempt.returned.inj (answer.symm.trans same)
    exact ⟨success, verdict, checked, feasible, fun count found => congrArg (Option.map _) (edges count found)⟩

/-- The failure to check an answer is that of its task. -/
theorem measure_of_failed_check {solution : Value} {failure : Failure} {parallel : Bool} {timeout : Binary64}
    (goesOn : task.GoesOn parallel timeout)
    (returned : (task.algorithm.solve (.dict task.problem)).2 = .returned solution) (present : solution ≠ .null)
    (failed : Solution.check (.dict task.problem) solution = .error failure) :
    ∃ log, task.measure parallel timeout = (log, .error failure) := by
  rcases task.attempt_cases parallel timeout with ⟨-, log, outcome, attempted, tells⟩ | ⟨stops, -⟩
  · have answer : outcome.solution = some solution := (tells.solution solution).mpr ⟨returned, present⟩
    have assessed : task.assess solution = .error failure := by
      rw [assess, failed]
      rfl
    exact ⟨log, by simp only [measure, attempted, answer, assessed]⟩
  · exact absurd goesOn stops

/-- An outcome on an instance that is not described comes to no row. -/
theorem measure_of_undescribed {parallel : Bool} {timeout : Binary64} {log : Log}
    (attempted : task.attempt parallel timeout = (log, .ok outcome))
    (undescribed : ¬ ∃ name generator size terminals, task.problem.Described name generator size terminals) :
    ∃ log failure, task.measure parallel timeout = (log, .error failure) := by
  cases answer : outcome.solution with
  | none =>
    obtain ⟨failure, failed⟩ := task.exists_failure_of_row outcome none undescribed
    exact ⟨log, failure, by simp only [measure, attempted, answer, failed]⟩
  | some solution =>
    rcases task.assess_cases solution with ⟨verdict, entries, objective, -, assessed, -⟩ | ⟨failure, -, assessed⟩
    · obtain ⟨failure, failed⟩ := task.exists_failure_of_row outcome objective undescribed
      exact ⟨log ++ entries, failure, by simp only [measure, attempted, answer, assessed, failed]⟩
    · exact ⟨log, failure, by simp only [measure, attempted, answer, assessed]⟩

/-- A task that is measurable has a row, and every other task fails. -/
theorem measure_cases (task : Task) (parallel : Bool) (timeout : Binary64) :
    (task.Measurable parallel timeout ∧
      ∃ log row, task.measure parallel timeout = (log, .ok row) ∧ task.Records row) ∨
    (¬ task.Measurable parallel timeout ∧ ∃ log failure, task.measure parallel timeout = (log, .error failure)) := by
  rcases task.attempt_cases parallel timeout with
    ⟨goesOn, log, outcome, attempted, tells⟩ | ⟨stops, log, failure, attempted⟩
  case inr => exact .inr ⟨fun measurable => stops measurable.goesOn, log, failure, by simp only [measure, attempted]⟩
  by_cases whole : ∃ name generator size terminals, task.problem.Described name generator size terminals
  case neg => exact .inr ⟨fun measurable => whole measurable.described, measure_of_undescribed attempted whole⟩
  obtain ⟨name, generator, size, terminals, described⟩ := whole
  cases answer : outcome.solution with
  | none =>
    have judged : ∀ solution, (task.algorithm.solve (.dict task.problem)).2 = .returned solution → solution ≠ .null →
        ∃ verdict, Solution.check (.dict task.problem) solution = .ok verdict := by
      intro solution same present
      have found := (tells.solution solution).mpr ⟨same, present⟩
      rw [answer] at found
      cases found
    refine .inl ⟨⟨goesOn, ⟨_, _, _, _, described⟩, judged⟩, log, _, ?_, records_of_none described rfl tells answer⟩
    simp only [measure, attempted, answer, row_of_described described]
  | some solution =>
    obtain ⟨returned, present⟩ := (tells.solution solution).mp answer
    have success := tells.success (by rw [answer]; rfl)
    rcases task.assess_cases solution with
      ⟨verdict, entries, objective, checked, assessed, feasible, edges⟩ | ⟨failure, failed, assessed⟩
    · refine .inl ⟨⟨goesOn, ⟨_, _, _, _, described⟩, fun other same _ => ?_⟩, log ++ entries, _, ?_,
        records_of_answer described returned present success checked feasible edges⟩
      · obtain rfl := Attempt.returned.inj (returned.symm.trans same)
        exact ⟨verdict, checked⟩
      · simp only [measure, attempted, answer, assessed, row_of_described described]
    · refine .inr ⟨fun measurable => ?_, log, failure, by simp only [measure, attempted, answer, assessed]⟩
      obtain ⟨verdict, checked⟩ := measurable.judged solution returned present
      rw [failed] at checked
      cases checked

end Task

end SteinerTrees
