import Mathlib
import SteinerTrees.Proofs.Benchmark.Runs
import SteinerTrees.Proofs.Verdict.Acceptance

/-! # What the rows of a run depend on

The result of a task is that of its algorithm, its instance and the number of its run, wherever the task stands. A run
that returns has one row for each algorithm on each instance, as often as is asked for, in lexicographic order. With
another algorithm in the place of one of them the other rows stay as they are. Times are not part of a row here, but
for the limit at which a process without an answer is stopped. -/

namespace SteinerTrees

variable {settings : BenchmarkSettings} {algorithms before after : List Algorithm} {algorithm raising : Algorithm}
  {problem : Problem} {problems built : List Problem} {number total : Nat} {parallel : Bool}
  {timeout timeout' : Binary64} {progress : Progress} {task other : Task} {row : Measurement} {rows : List Measurement}

/-! ## Results of tasks -/

namespace Task

/-- What a task is about; where it stands is left out. -/
def subject (task : Task) : Algorithm × Problem × Nat := (task.algorithm, task.problem, task.run)

theorem subject_eq_iff : task.subject = other.subject ↔
    task.algorithm = other.algorithm ∧ task.problem = other.problem ∧ task.run = other.run := by
  rw [subject, subject, Prod.mk.injEq, Prod.mk.injEq]

/-- Two time limits that make no difference for an attempt. In this process none does; a process of its own is stopped
at the limit if it gives no answer, and it is not waited for at all if the limit is too long. -/
def SameLimit (parallel : Bool) (attempt : Attempt) (timeout timeout' : Binary64) : Prop :=
  parallel = true → timeout = timeout' ∨ attempt ≠ .silent ∧ isTooLong timeout = isTooLong timeout'

theorem SameLimit.refl (parallel : Bool) (attempt : Attempt) (timeout : Binary64) :
    SameLimit parallel attempt timeout timeout := fun _ => .inl rfl

theorem outcomeApart_congr {attempt : Attempt} (answers : attempt ≠ .silent) (timeout timeout' : Binary64) :
    outcomeApart timeout attempt = outcomeApart timeout' attempt := by
  cases attempt with
  | returned solution => cases solution <;> rfl
  | nothing => rfl
  | failed failure => rfl
  | exited code => rfl
  | silent => exact absurd rfl answers

/-- The outcome of an attempt is that of the algorithm on the instance. -/
theorem attempt_congr (same : task.subject = other.subject)
    (limit : SameLimit parallel (task.algorithm.solve (.dict task.problem)).2 timeout timeout') :
    (task.attempt parallel timeout).2 = (other.attempt parallel timeout').2 := by
  obtain ⟨algorithm, problem, -⟩ := subject_eq_iff.mp same
  cases parallel with
  | false => rw [attempt_here, attempt_here, algorithm, problem]
  | true =>
    rw [attempt_apart, attempt_apart, ← algorithm, ← problem]
    rcases limit rfl with rfl | ⟨answers, long⟩
    · rfl
    · rw [← long, outcomeApart_congr answers timeout timeout']

theorem row_congr (same : task.subject = other.subject) (outcome : Outcome) (objective : Option Nat) :
    task.row outcome objective = other.row outcome objective := by
  obtain ⟨algorithm, problem, run⟩ := subject_eq_iff.mp same
  simp only [row, algorithm, problem, run]

theorem entry_congr (same : task.subject = other.subject) : task.entry = other.entry := by
  obtain ⟨-, problem, -⟩ := subject_eq_iff.mp same
  unfold entry problemName
  rw [problem]

theorem assess_congr (same : task.subject = other.subject) (solution : Value) :
    task.assess solution = other.assess solution := by
  obtain ⟨algorithm, problem, run⟩ := subject_eq_iff.mp same
  simp only [assess, entry_congr same, algorithm, problem]

theorem measure_congr (same : task.subject = other.subject)
    (limit : SameLimit parallel (task.algorithm.solve (.dict task.problem)).2 timeout timeout') :
    (task.measure parallel timeout).2 = (other.measure parallel timeout').2 := by
  have outcome : (task.attempt parallel timeout).2 = (other.attempt parallel timeout').2 := attempt_congr same limit
  revert outcome
  unfold measure
  rcases task.attempt parallel timeout with ⟨log, failure | outcome⟩ <;>
    rcases other.attempt parallel timeout' with ⟨log', failure' | outcome'⟩
  · rintro ⟨⟩
    rfl
  · nofun
  · nofun
  · rintro ⟨⟩
    dsimp only
    cases outcome.solution with
    | none => exact row_congr same outcome none
    | some solution =>
      dsimp only
      rw [← assess_congr same]
      cases task.assess solution with
      | error failure => rfl
      | ok assessed => exact row_congr same outcome assessed.2

/-- An attempt succeeds exactly if there is nothing to say about it. -/
def Outcome.IsSettled (outcome : Outcome) : Prop := outcome.status = .success ↔ outcome.message = ""

theorem isSettled_failedOutcome {failure : Failure} {outcome : Outcome}
    (described : failedOutcome failure = .ok outcome) : outcome.IsSettled := by
  unfold failedOutcome at described
  split at described
  · cases described
    simp [Outcome.IsSettled, toString]
  · cases described

theorem isSettled_outcomeHere {attempt : Attempt} {outcome : Outcome} (ended : outcomeHere attempt = .ok outcome) :
    outcome.IsSettled := by
  cases attempt with
  | returned solution => cases solution <;> cases ended <;> simp [Outcome.IsSettled, nothingOutcome]
  | nothing =>
    cases ended
    simp [Outcome.IsSettled, nothingOutcome]
  | failed failure => exact isSettled_failedOutcome ended
  | exited code => cases ended
  | silent => cases ended

theorem isSettled_exitedOutcome (code : Int) : (exitedOutcome code).IsSettled := by
  simp [Outcome.IsSettled, exitedOutcome, toString]

theorem isSettled_outcomeApart (timeout : Binary64) (attempt : Attempt) :
    (outcomeApart timeout attempt).IsSettled := by
  cases attempt with
  | returned solution => cases solution <;> simp [outcomeApart, Outcome.IsSettled, nothingOutcome]
  | nothing => simp [outcomeApart, Outcome.IsSettled, nothingOutcome]
  | failed failure =>
    rw [outcomeApart]
    cases described : failedOutcome failure with
    | ok outcome => exact isSettled_failedOutcome described
    | error _ => exact isSettled_exitedOutcome 1
  | exited code => exact isSettled_exitedOutcome code
  | silent => simp [outcomeApart, Outcome.IsSettled, stoppedOutcome, toString]

theorem isSettled_attempt {outcome : Outcome} (attempted : (task.attempt parallel timeout).2 = .ok outcome) :
    outcome.IsSettled := by
  cases parallel with
  | false => exact isSettled_outcomeHere attempted
  | true =>
    rw [attempt_apart] at attempted
    split at attempted
    · cases attempted
    · cases attempted
      exact isSettled_outcomeApart timeout _

theorem isTooLong_of_attempt {outcome : Outcome} (attempted : (task.attempt true timeout).2 = .ok outcome) :
    isTooLong timeout = false := by
  rw [attempt_apart] at attempted
  split at attempted
  · cases attempted
  next long => exact Bool.eq_false_iff.mpr long

end Task

namespace Benchmark

/-- The result of an algorithm on an instance in a run of some number. -/
def result (parallel : Bool) (timeout : Binary64) : Algorithm × Problem × Nat → Except Failure Measurement
  | (algorithm, problem, run) => (Task.measure ⟨algorithm, problem, run, 0⟩ parallel timeout).2

theorem measure_eq_result (task : Task) (parallel : Bool) (timeout : Binary64) :
    (task.measure parallel timeout).2 = result parallel timeout task.subject :=
  Task.measure_congr rfl (Task.SameLimit.refl _ _ _)

/-- A result is the row of the outcome. It has an objective if the check accepts the answer. -/
theorem exists_rowOf (measured : (task.measure parallel timeout).2 = .ok row) :
    ∃ outcome objective name generator size terminals, (task.attempt parallel timeout).2 = .ok outcome ∧
      outcome.Tells (task.algorithm.solve (.dict task.problem)).2 ∧
      row = task.rowOf outcome objective name generator size terminals ∧
      ∀ edges, objective = some edges → ∃ solution, outcome.solution = some solution ∧
        Solution.check (.dict task.problem) solution = .ok (.feasible edges) := by
  rcases task.attempt_cases parallel timeout with
    ⟨-, log, outcome, attempted, tells⟩ | ⟨-, log, failure, attempted⟩
  case inr =>
    simp only [Task.measure, attempted] at measured
    cases measured
  rw [attempted]
  cases answer : outcome.solution with
  | none =>
    simp only [Task.measure, attempted, answer] at measured
    obtain ⟨name, generator, size, terminals, -, same⟩ := Task.row_eq_ok_iff.mp measured
    refine ⟨outcome, none, name, generator, size, terminals, rfl, tells, same, fun edges found => ?_⟩
    cases found
  | some solution =>
    rcases task.assess_cases solution with
      ⟨verdict, entries, objective, checked, assessed, feasible, found⟩ | ⟨failure, -, assessed⟩
    · simp only [Task.measure, attempted, answer, assessed] at measured
      obtain ⟨name, generator, size, terminals, -, same⟩ := Task.row_eq_ok_iff.mp measured
      refine ⟨outcome, objective, name, generator, size, terminals, rfl, tells, same, ?_⟩
      rintro edges rfl
      cases verdict with
      | feasible size =>
        obtain rfl := Option.some.inj (found size rfl)
        exact ⟨solution, answer, checked⟩
      | infeasible objection size => cases feasible
    · simp only [Task.measure, attempted, answer, assessed] at measured
      cases measured

/-- A row that agrees with itself, on an instance and how an algorithm ended on it. -/
structure Coherent (problem : Problem) (attempt : Attempt) (row : Measurement) : Prop where
  objective_isSome : row.objective.isSome = row.feasible
  success : row.feasible = true → row.status = .success
  message : row.status = .success ↔ row.errorMessage = ""
  /-- An objective is that of an answer that the check accepts. -/
  objective : ∀ value, row.objective = some value → ∃ solution edges, attempt = .returned solution ∧
    Solution.check (.dict problem) solution = .ok (.feasible edges) ∧ Solution.objective solution = .ok edges ∧
    value = .ofInt edges

theorem coherent_of_measure (measured : (task.measure parallel timeout).2 = .ok row) :
    Coherent task.problem (task.algorithm.solve (.dict task.problem)).2 row := by
  obtain ⟨outcome, objective, name, generator, size, terminals, attempted, tells, rfl, accepted⟩ :=
    exists_rowOf measured
  refine ⟨Option.isSome_map, fun feasible => ?_, Task.isSettled_attempt attempted, fun value found => ?_⟩
  · obtain ⟨edges, judged⟩ := Option.isSome_iff_exists.mp feasible
    obtain ⟨solution, answer, -⟩ := accepted edges judged
    exact tells.success (Option.isSome_iff_exists.mpr ⟨solution, answer⟩)
  · obtain ⟨edges, judged, rfl⟩ := Option.map_eq_some_iff.mp found
    obtain ⟨solution, answer, checked⟩ := accepted edges judged
    obtain ⟨_, _, _, _, _, _, _, _, meets⟩ := Solution.exists_meets_of_feasible checked
    exact ⟨solution, edges, ((tells.solution solution).mp answer).1, checked, meets.objective, rfl⟩

/-- A row that is the result of an algorithm on an instance. -/
structure Results (parallel : Bool) (timeout : Binary64) (subject : Algorithm × Problem × Nat) (row : Measurement) :
    Prop where
  result : result parallel timeout subject = .ok row
  /-- The time limit counts for a process of its own only, and there for one without an answer if it can be waited for
  at all. -/
  unlimited : ∀ limit, (parallel = true →
    (subject.1.solve (.dict subject.2.1)).2 ≠ .silent ∧ Task.isTooLong limit = false) →
    Benchmark.result parallel limit subject = .ok row
  records : Task.Records ⟨subject.1, subject.2.1, subject.2.2, 0⟩ row
  coherent : Coherent subject.2.1 (subject.1.solve (.dict subject.2.1)).2 row

theorem results_of_result {subject : Algorithm × Problem × Nat} (measured : result parallel timeout subject = .ok row) :
    Results parallel timeout subject row where
  result := measured
  unlimited limit answers := by
    obtain ⟨outcome, _, _, _, _, _, attempted, -⟩ := exists_rowOf measured
    refine (Task.measure_congr rfl fun apart => .inr ?_).trans measured
    subst apart
    exact ⟨(answers rfl).1, (answers rfl).2.trans (Task.isTooLong_of_attempt attempted).symm⟩
  records := by
    rcases Task.measure_cases ⟨subject.1, subject.2.1, subject.2.2, 0⟩ parallel timeout with
      ⟨-, log, found, ended, records⟩ | ⟨-, log, failure, ended⟩
    · rw [result, ended] at measured
      exact Except.ok.inj measured ▸ records
    · rw [result, ended] at measured
      cases measured
  coherent := coherent_of_measure measured

/-! ## Rows of runs -/

/-- The tasks of an algorithm are about all instances, as often as is asked for, counted from one. -/
theorem map_tasksOf {α : Type} (f : Task → α) (problems : List Problem) (runs : Nat) (algorithm : Algorithm) :
    (tasksOf problems runs algorithm).map f = ((problems ×ˢ List.range runs).zipIdx 1).map fun trial =>
      f ⟨algorithm, trial.1.1, trial.1.2, trial.2⟩ := by
  rw [tasksOf, List.map_map]
  rfl

/-- The tasks of a run are about all combinations in lexicographic order. -/
theorem map_subject_tasks (algorithms : List Algorithm) (problems : List Problem) (runs : Nat) :
    (tasks algorithms problems runs).map Task.subject = algorithms ×ˢ (problems ×ˢ List.range runs) := by
  rw [tasks, List.map_flatMap]
  refine List.flatMap_congr fun algorithm _ => ?_
  calc (tasksOf problems runs algorithm).map Task.subject
    _ = ((problems ×ˢ List.range runs).zipIdx 1).map (Prod.mk algorithm ∘ Prod.fst) := map_tasksOf ..
    _ = (problems ×ˢ List.range runs).map (Prod.mk algorithm) := by rw [← List.map_map, List.zipIdx_map_fst]

/-- Within each algorithm the tasks are counted from one. -/
theorem map_call_tasks (algorithms : List Algorithm) (problems : List Problem) (runs total : Nat) :
    (tasks algorithms problems runs).map (fun task => (task.algorithm.name, task.position, total)) =
      algorithms.flatMap fun algorithm => (List.range (problems.length * runs)).map fun done =>
        (algorithm.name, done + 1, total) := by
  rw [tasks, List.map_flatMap]
  refine List.flatMap_congr fun algorithm _ => ?_
  calc (tasksOf problems runs algorithm).map (fun task => (task.algorithm.name, task.position, total))
    _ = ((problems ×ˢ List.range runs).zipIdx 1).map ((fun position => (algorithm.name, position, total)) ∘ Prod.snd) :=
      map_tasksOf ..
    _ = (List.range' 1 (problems.length * runs)).map fun position => (algorithm.name, position, total) := by
      rw [← List.map_map, List.zipIdx_map_snd, List.length_product, List.length_range]
    _ = (List.range (problems.length * runs)).map fun done => (algorithm.name, done + 1, total) := by
      rw [List.range'_eq_map_range, List.map_map]
      exact List.map_congr_left fun done _ => by rw [Function.comp_apply, Nat.add_comm]

/-- Tasks that all have results leave them as rows. -/
theorem carryOut_of_results {tasks : List Task}
    (measured : (tasks.map Task.subject).mapM (result parallel timeout) = .ok rows) (total : Nat)
    (progress : Progress) : ∃ log, carryOut parallel timeout total progress tasks =
      ({ log
         calls := progress.calls ++ tasks.map fun task => (task.algorithm.name, task.position, total)
         rows := progress.rows ++ rows }, .ok ()) := by
  induction tasks generalizing progress rows with
  | nil =>
    rw [List.map_nil, List.mapM_nil, pure_eq_ok_iff] at measured
    exact ⟨progress.log, by rw [measured, carryOut, List.map_nil, List.append_nil, List.append_nil]⟩
  | cons task tasks ih =>
    obtain ⟨row, others, here, there, rfl⟩ := mapM_cons_eq_ok_iff.mp measured
    rw [← measure_eq_result task parallel] at here
    rcases ended : task.measure parallel timeout with ⟨entries, _⟩
    rw [ended] at here
    cases here
    obtain ⟨log, carried⟩ := ih there {
      log := progress.log ++ entries
      calls := progress.calls ++ [(task.algorithm.name, task.position, total)]
      rows := progress.rows ++ [row] }
    refine ⟨log, ?_⟩
    rw [carryOut, ended]
    dsimp only
    rw [carried, List.append_assoc, List.append_assoc, List.singleton_append, List.singleton_append, List.map_cons]

/-- Tasks that were carried out all have results. -/
theorem results_of_carryOut {tasks : List Task} {left : Progress}
    (ended : carryOut parallel timeout total progress tasks = (left, .ok ())) :
    ∃ rows, (tasks.map Task.subject).mapM (result parallel timeout) = .ok rows := by
  induction tasks generalizing progress with
  | nil => exact ⟨[], rfl⟩
  | cons task tasks ih =>
    rcases measured : task.measure parallel timeout with ⟨entries, failure | row⟩
    · rw [carryOut, measured] at ended
      cases ended
    · rw [carryOut, measured] at ended
      obtain ⟨rows, others⟩ := ih ended
      have here : result parallel timeout task.subject = .ok row := by rw [← measure_eq_result, measured]
      exact ⟨row :: rows, mapM_cons_eq_ok_iff.mpr ⟨row, rows, here, others, rfl⟩⟩

/-- What a run needs to return: algorithms, a problem class that is known, instances, and a result for each
algorithm on each of them. -/
structure Returns (settings : BenchmarkSettings) (algorithms : List Algorithm) (parallel : Bool)
    (built problems : List Problem) (rows : List Measurement) : Prop where
  registered : algorithms ≠ []
  known : ∃ problemClass, ProblemClass.ofName (.text settings.problemClass) = .ok problemClass
  ready : built = problems ∧ problems ≠ [] ∨ built = [] ∧ settings.instances.build = .ok problems
  results : (algorithms ×ˢ (problems ×ˢ List.range settings.execution.runs.toNat)).mapM
    (result parallel settings.execution.timeout) = .ok rows

/-- The reports of progress of a run with a number of runs of each algorithm. -/
def reports (algorithms : List Algorithm) (total : Nat) : List (String × Nat × Nat) :=
  algorithms.flatMap fun algorithm => (List.range total).map fun done => (algorithm.name, done + 1, total)

theorem Returns.run_eq (returns : Returns settings algorithms parallel built problems rows) :
    ∃ log, run settings algorithms parallel built =
      ({ log, calls := reports algorithms (problems.length * settings.execution.runs.toNat), rows },
        .ok (problems, rows)) := by
  obtain ⟨problemClass, known⟩ := returns.known
  have measured := returns.results
  rw [← map_subject_tasks] at measured
  obtain ⟨_, carried⟩ := carryOut_of_results measured (problems.length * settings.execution.runs.toNat) {}
  rw [map_call_tasks] at carried
  obtain ⟨log, same⟩ := exists_run_eq returns.registered returns.ready parallel
  refine ⟨log, same.trans ?_⟩
  simp only [runOn, known, carried]
  rfl

theorem ready_of_run (registered : algorithms ≠ [])
    (returned : run settings algorithms parallel built = (progress, .ok (problems, rows))) :
    built = problems ∧ problems ≠ [] ∨ built = [] ∧ settings.instances.build = .ok problems := by
  rw [run, if_neg (by rwa [List.isEmpty_iff])] at returned
  have ended := congrArg Prod.snd returned
  cases built with
  | cons first others =>
    rw [if_pos (by rfl)] at ended
    obtain ⟨found, -, same⟩ := map_eq_ok_iff.mp ended
    obtain ⟨rfl, -⟩ := Prod.mk.inj same
    exact .inl ⟨rfl, List.cons_ne_nil first others⟩
  | nil =>
    rw [if_neg (by decide)] at ended
    cases build : settings.instances.build with
    | error failure =>
      rw [build] at ended
      cases ended
    | ok instances =>
      rw [build] at ended
      obtain ⟨found, -, same⟩ := map_eq_ok_iff.mp ended
      obtain ⟨rfl, -⟩ := Prod.mk.inj same
      exact .inr ⟨rfl, rfl⟩

/-- A run that returns had all that it needs. -/
theorem returns_of_run (returned : run settings algorithms parallel built = (progress, .ok (problems, rows))) :
    Returns settings algorithms parallel built problems rows := by
  have registered : algorithms ≠ [] := by
    rintro rfl
    cases returned
  have ready := ready_of_run registered returned
  obtain ⟨log, same⟩ := exists_run_eq registered ready parallel
  obtain ⟨found, ended, read⟩ := map_eq_ok_iff.mp (congrArg Prod.snd (same.symm.trans returned))
  obtain ⟨-, rfl⟩ := Prod.mk.inj read
  cases known : ProblemClass.ofName (.text settings.problemClass) with
  | error failure =>
    simp only [runOn, known] at ended
    cases ended
  | ok problemClass =>
    rcases carried : carryOut parallel settings.execution.timeout (problems.length * settings.execution.runs.toNat) {}
      (tasks algorithms problems settings.execution.runs.toNat) with ⟨left, failure | _⟩
    · simp only [runOn, known, carried] at ended
      cases ended
    · obtain ⟨results, measured⟩ := results_of_carryOut carried
      rw [map_subject_tasks] at measured
      have returns : Returns settings algorithms parallel built problems results :=
        ⟨registered, ⟨problemClass, known⟩, ready, measured⟩
      obtain ⟨log, again⟩ := returns.run_eq
      rw [returned] at again
      obtain ⟨-, rfl⟩ := Prod.mk.inj (Except.ok.inj (Prod.mk.inj again).2)
      exact returns

/-! ## Algorithms that fail -/

theorem exists_result_of_measurable (measurable : Task.Measurable ⟨algorithm, problem, number, 0⟩ parallel timeout) :
    ∃ row, result parallel timeout (algorithm, problem, number) = .ok row := by
  rcases Task.measure_cases ⟨algorithm, problem, number, 0⟩ parallel timeout with
    ⟨-, log, row, ended, -⟩ | ⟨lost, -⟩
  · exact ⟨row, by rw [result, ended]⟩
  · exact absurd measurable lost

/-- A run returns if all its tasks are measurable. -/
theorem exists_returns {algorithms : List Algorithm} {problemClass : ProblemClass} (registered : algorithms ≠ [])
    (known : ProblemClass.ofName (.text settings.problemClass) = .ok problemClass)
    (ready : built = problems ∧ problems ≠ [] ∨ built = [] ∧ settings.instances.build = .ok problems)
    (measurable : ∀ algorithm ∈ algorithms, ∀ problem ∈ problems, ∀ number,
      Task.Measurable ⟨algorithm, problem, number, 0⟩ parallel settings.execution.timeout) :
    ∃ rows, Returns settings algorithms parallel built problems rows := by
  have measured : ∀ subject ∈ algorithms ×ˢ (problems ×ˢ List.range settings.execution.runs.toNat),
      ∃ row, result parallel settings.execution.timeout subject = .ok row := by
    rintro ⟨algorithm, problem, number⟩ member
    obtain ⟨registered, trial⟩ := List.mem_product.mp member
    exact exists_result_of_measurable (measurable algorithm registered problem (List.mem_product.mp trial).1 number)
  obtain ⟨rows, results⟩ := exists_mapM_eq_ok_iff.mpr measured
  exact ⟨rows, registered, ⟨problemClass, known⟩, ready, results⟩

/-- An algorithm that fails is measurable on every instance that is described, if the run goes on. -/
theorem measurable_of_failed {failure : Failure}
    (goesOn : Task.GoesOn ⟨raising, problem, number, 0⟩ parallel timeout)
    (described : ∃ name generator size terminals, problem.Described name generator size terminals)
    (failed : (raising.solve (.dict problem)).2 = .failed failure) :
    Task.Measurable ⟨raising, problem, number, 0⟩ parallel timeout := by
  refine ⟨goesOn, described, fun solution answer => ?_⟩
  rw [failed] at answer
  cases answer

/-- Where a run went on after one algorithm, it goes on after one that fails, unless the failure cannot be written. -/
theorem goesOn_of_failed {failure : Failure} (goesOn : Task.GoesOn ⟨algorithm, problem, number, 0⟩ parallel timeout)
    (failed : (raising.solve (.dict problem)).2 = .failed failure)
    (writable : parallel = true ∨ failure.isWritable = true) :
    Task.GoesOn ⟨raising, problem, number, 0⟩ parallel timeout := by
  cases parallel with
  | true => exact goesOn
  | false =>
    refine Task.goesOn_here.mpr ?_
    rw [failed]
    exact .failed (writable.resolve_left Bool.false_ne_true)

/-- The results of an algorithm stand between those of the algorithms before and after it. -/
theorem results_around_iff {trials : List (Problem × Nat)} :
    ((before ++ algorithm :: after) ×ˢ trials).mapM (result parallel timeout) = .ok rows ↔
      ∃ first own last, (before ×ˢ trials).mapM (result parallel timeout) = .ok first ∧
        (trials.map (Prod.mk algorithm)).mapM (result parallel timeout) = .ok own ∧
        (after ×ˢ trials).mapM (result parallel timeout) = .ok last ∧ rows = first ++ (own ++ last) := by
  have around : (before ++ algorithm :: after) ×ˢ trials =
      before ×ˢ trials ++ (trials.map (Prod.mk algorithm) ++ after ×ˢ trials) := List.flatMap_append
  rw [around, mapM_append_eq_ok_iff]
  simp only [mapM_append_eq_ok_iff]
  constructor
  · rintro ⟨first, _, former, ⟨own, last, middle, latter, rfl⟩, rfl⟩
    exact ⟨first, own, last, former, middle, latter, rfl⟩
  · rintro ⟨first, own, last, former, middle, latter, rfl⟩
    exact ⟨first, own ++ last, former, ⟨own, last, middle, latter, rfl⟩, rfl⟩

/-- The results of one algorithm that fails, if there are any. -/
structure FailedRows (raising : Algorithm) (own failed : List Measurement) : Prop where
  length_eq : failed.length = own.length
  each : ∀ row ∈ failed, row.algorithm = raising.name ∧ row.status = .error

/-- Whether a failure of an algorithm cannot be written, which ends a run in the same process. -/
def FailsUnwritten (parallel : Bool) (raising : Algorithm) (problems : List Problem) : Prop :=
  parallel = false ∧ ∃ problem ∈ problems, ∃ failure, (raising.solve (.dict problem)).2 = .failed failure ∧
    failure.isWritable = false

theorem length_of_results {trials : List (Problem × Nat)}
    (measured : (trials.map (Prod.mk algorithm)).mapM (result parallel timeout) = .ok rows) :
    rows.length = trials.length := by
  rw [← (forall₂_of_mapM measured).length_eq, List.length_map]

/-- Where an algorithm has a result, one that fails has one as well, if its failure can be written or need not be. -/
theorem exists_result_of_failed {problem : Problem} {number : Nat} {row : Measurement} {failure : Failure}
    (here : result parallel timeout (algorithm, problem, number) = .ok row)
    (ended : (raising.solve (.dict problem)).2 = .failed failure)
    (writable : parallel = true ∨ failure.isWritable = true) :
    ∃ row, result parallel timeout (raising, problem, number) = .ok row := by
  have measurable : Task.Measurable ⟨algorithm, problem, number, 0⟩ parallel timeout := by
    rcases Task.measure_cases ⟨algorithm, problem, number, 0⟩ parallel timeout with
      ⟨measurable, -⟩ | ⟨-, log, failure, lost⟩
    · exact measurable
    · rw [result, lost] at here
      cases here
  exact exists_result_of_measurable
    (measurable_of_failed (goesOn_of_failed measurable.goesOn ended writable) measurable.described ended)

/-- The results of an algorithm that fails are rows of failures. -/
theorem failedRows_of_results {runs : Nat} {own failed : List Measurement}
    (measured : ((problems ×ˢ List.range runs).map (Prod.mk algorithm)).mapM (result parallel timeout) = .ok own)
    (fails : ∀ problem ∈ problems, ∃ failure, (raising.solve (.dict problem)).2 = .failed failure)
    (replaced : ((problems ×ˢ List.range runs).map (Prod.mk raising)).mapM (result parallel timeout) = .ok failed) :
    FailedRows raising own failed := by
  refine ⟨(length_of_results replaced).trans (length_of_results measured).symm, ?_⟩
  intro row member
  obtain ⟨subject, placed, here⟩ := exists_source_of_mapM replaced member
  obtain ⟨trial, listed, rfl⟩ := List.mem_map.mp placed
  obtain ⟨failure, ended⟩ := fails trial.1 (List.mem_product.mp listed).1
  have records := (results_of_result here).records
  exact ⟨records.algorithm, (records.failed failure ended).1⟩

/-- Where an algorithm has results, one that fails has them as well; only if a failure cannot be written it has not. -/
theorem results_of_fails {runs : Nat} {own : List Measurement}
    (measured : ((problems ×ˢ List.range runs).map (Prod.mk algorithm)).mapM (result parallel timeout) = .ok own)
    (fails : ∀ problem ∈ problems, ∃ failure, (raising.solve (.dict problem)).2 = .failed failure) :
    (∃ failed, ((problems ×ˢ List.range runs).map (Prod.mk raising)).mapM (result parallel timeout) = .ok failed ∧
      FailedRows raising own failed) ∨
    FailsUnwritten parallel raising problems ∧ ¬ ∃ failed,
      ((problems ×ˢ List.range runs).map (Prod.mk raising)).mapM (result parallel timeout) = .ok failed := by
  by_cases has : ∃ failed,
      ((problems ×ˢ List.range runs).map (Prod.mk raising)).mapM (result parallel timeout) = .ok failed
  case pos =>
    obtain ⟨failed, replaced⟩ := has
    exact .inl ⟨failed, replaced, failedRows_of_results measured fails replaced⟩
  refine .inr ⟨?_, has⟩
  by_contra unwritten
  apply has
  apply exists_mapM_eq_ok_iff.mpr
  intro subject member
  obtain ⟨⟨problem, number⟩, listed, rfl⟩ := List.mem_map.mp member
  have among : problem ∈ problems := (List.mem_product.mp listed).1
  obtain ⟨failure, ended⟩ := fails problem among
  obtain ⟨row, -, here⟩ := exists_mem_of_mapM measured (List.mem_map_of_mem listed)
  apply exists_result_of_failed here ended
  by_contra neither
  rw [not_or, Bool.not_eq_true, Bool.not_eq_true] at neither
  exact unwritten ⟨neither.1, problem, among, failure, ended, neither.2⟩

/-- The instances of a run are those at hand, or those that are built. -/
theorem ready_unique {others : List Problem}
    (ready : built = problems ∧ problems ≠ [] ∨ built = [] ∧ settings.instances.build = .ok problems)
    (also : built = others ∧ others ≠ [] ∨ built = [] ∧ settings.instances.build = .ok others) : problems = others := by
  rcases ready with ⟨rfl, present⟩ | ⟨rfl, build⟩ <;> rcases also with ⟨same, some⟩ | ⟨empty, built⟩
  · exact same
  · exact absurd empty present
  · exact absurd same.symm some
  · exact Except.ok.inj (build.symm.trans built)

/-- With an algorithm that fails in the place of another one a run returns as well, and only the rows of that algorithm
differ; only if a failure cannot be written the run does not return. -/
theorem Returns.exists_replaced (returns : Returns settings (before ++ algorithm :: after) parallel built problems rows)
    (fails : ∀ problem ∈ problems, ∃ failure, (raising.solve (.dict problem)).2 = .failed failure) :
    ∃ first own last, rows = first ++ (own ++ last) ∧
      first.length = before.length * (problems.length * settings.execution.runs.toNat) ∧
      own.length = problems.length * settings.execution.runs.toNat ∧
      ((∃ failed, Returns settings (before ++ raising :: after) parallel built problems (first ++ (failed ++ last)) ∧
        FailedRows raising own failed) ∨
      FailsUnwritten parallel raising problems ∧
        ¬ ∃ others rows, Returns settings (before ++ raising :: after) parallel built others rows) := by
  obtain ⟨first, own, last, former, middle, latter, rfl⟩ := results_around_iff.mp returns.results
  refine ⟨first, own, last, rfl, ?_, ?_, ?_⟩
  · rw [← (forall₂_of_mapM former).length_eq, List.length_product, List.length_product, List.length_range]
  · rw [length_of_results middle, List.length_product, List.length_range]
  · rcases results_of_fails middle fails with ⟨failed, replaced, rows⟩ | ⟨unwritten, lost⟩
    · exact .inl ⟨failed, ⟨by simp, returns.known, returns.ready,
        results_around_iff.mpr ⟨first, failed, last, former, replaced, latter, rfl⟩⟩, rows⟩
    · refine .inr ⟨unwritten, fun ⟨others, rows, again⟩ => ?_⟩
      obtain rfl := ready_unique returns.ready again.ready
      obtain ⟨_, failed, _, -, replaced, -⟩ := results_around_iff.mp again.results
      exact lost ⟨failed, replaced⟩

/-- The rows of a run that returns. They stand in lexicographic order, each of them is the result of its algorithm on
its instance, and each is reported when it is done. With an algorithm that fails in the place of another one the run
returns the same rows, but for those of that algorithm; only if a failure cannot be written it does not return. -/
theorem rows_of_run (returned : run settings algorithms parallel built = (progress, .ok (problems, rows))) :
    (built = problems ∧ problems ≠ [] ∨ built = [] ∧ settings.instances.build = .ok problems) ∧
    List.Forall₂ (Results parallel settings.execution.timeout)
      (algorithms ×ˢ (problems ×ˢ List.range settings.execution.runs.toNat)) rows ∧
    progress.rows = rows ∧
    progress.calls = reports algorithms (problems.length * settings.execution.runs.toNat) ∧
    ∀ before algorithm after raising, algorithms = before ++ algorithm :: after →
      (∀ problem ∈ problems, ∃ failure, (raising.solve (.dict problem)).2 = .failed failure) →
      ∃ first own last, rows = first ++ (own ++ last) ∧
        first.length = before.length * (problems.length * settings.execution.runs.toNat) ∧
        own.length = problems.length * settings.execution.runs.toNat ∧
        ((∃ other failed, run settings (before ++ raising :: after) parallel built =
          (other, .ok (problems, first ++ (failed ++ last))) ∧ FailedRows raising own failed) ∨
        FailsUnwritten parallel raising problems ∧
          ∃ other failure, run settings (before ++ raising :: after) parallel built = (other, .error failure)) := by
  have returns := returns_of_run returned
  obtain ⟨log, same⟩ := returns.run_eq
  obtain ⟨rfl, -⟩ := Prod.mk.inj (returned.symm.trans same)
  refine ⟨returns.ready, (forall₂_of_mapM returns.results).imp fun _ _ => results_of_result, rfl, rfl, ?_⟩
  rintro before algorithm after raising rfl fails
  obtain ⟨first, own, last, split, former, middle, replaced⟩ := returns.exists_replaced fails
  refine ⟨first, own, last, split, former, middle, ?_⟩
  rcases replaced with ⟨failed, again, own_rows⟩ | ⟨unwritten, lost⟩
  · obtain ⟨entries, ended⟩ := again.run_eq
    exact .inl ⟨_, failed, ended, own_rows⟩
  · refine .inr ⟨unwritten, ?_⟩
    rcases ended : run settings (before ++ raising :: after) parallel built with ⟨other, failure | ⟨others, rows⟩⟩
    · exact ⟨other, failure, rfl⟩
    · exact absurd ⟨others, rows, returns_of_run ended⟩ lost

/-- A benchmark of two runs on a given instance. -/
def givenTwice (problem : Problem) : BenchmarkSettings := { given problem with execution := { runs := 2 } }

/-- An algorithm that always answers a joined pair with its vertices. -/
def answering : Algorithm where
  name := "answer"
  family := "Answer"
  solve _ := ([], .returned (.dict [("solution", .dict [("vertices", .list [.text "a", .text "b"])])]))

theorem exists_results_twice : ∃ rows, Returns (givenTwice (joinedPair [.text "a", .text "b"]))
    [answering, failing] false [] [namedPair [.text "a", .text "b"]] rows := by
  have known : ProblemClass.ofName (.text (givenTwice (joinedPair [.text "a", .text "b"])).problemClass) =
      .ok .steinerTree := eq_ok_of_toOption (by decide +kernel)
  have judged : Solution.check (.dict (namedPair [.text "a", .text "b"]))
      (.dict [("solution", .dict [("vertices", .list [.text "a", .text "b"])])]) = .ok (.feasible 1) :=
    Solution.check_eq_of_accepts (by decide +kernel)
  apply exists_returns (List.cons_ne_nil _ _) known (.inr ⟨rfl, rfl⟩)
  intro algorithm one problem member number
  obtain rfl := List.mem_singleton.mp member
  rcases List.mem_pair.mp one with rfl | rfl
  · refine ⟨Task.goesOn_here.mpr (.returned _), ⟨_, _, _, _, described_namedPair⟩, fun solution answer _ => ?_⟩
    cases answer
    exact ⟨_, judged⟩
  · exact measurable_of_failed (Task.goesOn_here.mpr (.failed rfl)) ⟨_, _, _, _, described_namedPair⟩ rfl

theorem rows_of_run_twice : ∃ progress rows,
    run (givenTwice (joinedPair [.text "a", .text "b"])) [answering, failing] false [] =
      (progress, .ok ([namedPair [.text "a", .text "b"]], rows)) ∧
    List.Forall₂ (Results false (.ofInt 60))
      ([answering, failing] ×ˢ ([namedPair [.text "a", .text "b"]] ×ˢ List.range 2)) rows ∧
    progress.rows = rows ∧
    progress.calls = [("answer", 1, 2), ("answer", 2, 2), ("fail", 1, 2), ("fail", 2, 2)] ∧
    ∃ own failed last other, rows = own ++ last ∧
      run (givenTwice (joinedPair [.text "a", .text "b"])) [failing, failing] false [] =
        (other, .ok ([namedPair [.text "a", .text "b"]], failed ++ last)) ∧
      own.length = 2 ∧ failed.length = 2 ∧ ∀ row ∈ failed, row.algorithm = "fail" ∧ row.status = .error := by
  obtain ⟨rows, returns⟩ := exists_results_twice
  obtain ⟨log, returned⟩ := returns.run_eq
  obtain ⟨-, results, same, calls, replaced⟩ := rows_of_run returned
  obtain ⟨first, own, last, split, former, middle, ends⟩ :=
    replaced [] answering [failing] failing rfl fun _ _ => ⟨_, rfl⟩
  obtain rfl := List.length_eq_zero_iff.mp (former.trans (Nat.zero_mul _))
  rcases ends with ⟨other, failed, again, count, errors⟩ | ⟨⟨-, problem, -, failure, ended, unwritable⟩, -⟩
  · exact ⟨_, rows, returned, results, same, calls, own, failed, last, other, split, again, middle,
      count.trans middle, errors⟩
  · cases ended
    cases unwritable

end Benchmark

end SteinerTrees
