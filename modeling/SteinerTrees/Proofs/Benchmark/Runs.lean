import Mathlib
import SteinerTrees.Proofs.Benchmark.Rows

/-! # Runs of a benchmark

A run carries out its tasks one after the other, and the rows of those that are done are kept. A failure of an
algorithm is a row like any other. Only a task that is not measurable ends a run before all tasks have their rows. -/

namespace SteinerTrees

variable {settings : BenchmarkSettings} {algorithms : List Algorithm} {problems built : List Problem}
  {problemClass : ProblemClass} {parallel : Bool} {total : Nat} {progress : Progress}

namespace Benchmark

/-! ## Carrying out tasks -/

theorem length_tasksOf (problems : List Problem) (runs : Nat) (algorithm : Algorithm) :
    (tasksOf problems runs algorithm).length = problems.length * runs := by
  simp only [tasksOf, List.length_map, List.length_zipIdx, List.length_flatMap, List.length_range, List.map_const',
    List.sum_replicate_nat]

/-- Every algorithm is run on every instance, as often as is asked for. -/
theorem length_tasks (algorithms : List Algorithm) (problems : List Problem) (runs : Nat) :
    (tasks algorithms problems runs).length = algorithms.length * problems.length * runs := by
  simp only [tasks, List.length_flatMap, length_tasksOf, List.map_const', List.sum_replicate_nat, Nat.mul_assoc]

/-- What tasks that were carried out have left: a row for each, and a report of progress. -/
structure Carried (total : Nat) (done : List Task) (progress : Progress) : Prop where
  rows : List.Forall₂ Task.Records done progress.rows
  calls : progress.calls = done.map fun task => (task.algorithm.name, task.position, total)

theorem Carried.empty (total : Nat) : Carried total [] {} := ⟨.nil, rfl⟩

/-- One more task that has its row. -/
theorem Carried.step {done : List Task} {task : Task} {row : Measurement} (carried : Carried total done progress)
    (records : task.Records row) (log : Log) : Carried total (done ++ [task]) {
      log
      calls := progress.calls ++ [(task.algorithm.name, task.position, total)]
      rows := progress.rows ++ [row] } where
  rows := List.rel_append carried.rows (.cons records .nil)
  calls := by rw [carried.calls, List.map_append, List.map_singleton]

/-- Tasks are carried out up to the first that is not measurable. -/
theorem Carried.carryOut {done rest : List Task} (carried : Carried total done progress) (parallel : Bool)
    (timeout : Binary64) :
    ((∀ task ∈ rest, task.Measurable parallel timeout) ∧
      ∃ after, carryOut parallel timeout total progress rest = (after, .ok ()) ∧ Carried total (done ++ rest) after) ∨
    ∃ before task others after failure, rest = before ++ task :: others ∧
      (∀ other ∈ before, other.Measurable parallel timeout) ∧
      ¬ task.Measurable parallel timeout ∧ (task.measure parallel timeout).2 = .error failure ∧
      Benchmark.carryOut parallel timeout total progress rest = (after, .error failure) ∧
      Carried total (done ++ before) after := by
  -- A task moves from `rest` to `done` once it has its row.
  induction rest generalizing done progress with
  | nil => exact .inl ⟨fun _ member => absurd member List.not_mem_nil, progress, rfl, by rwa [List.append_nil]⟩
  | cons task rest ih =>
    rcases task.measure_cases parallel timeout with
      ⟨measurable, log, row, measured, records⟩ | ⟨lost, log, failure, measured⟩
    · have step : Benchmark.carryOut parallel timeout total progress (task :: rest) =
          Benchmark.carryOut parallel timeout total
            { log := progress.log ++ log
              calls := progress.calls ++ [(task.algorithm.name, task.position, total)]
              rows := progress.rows ++ [row] } rest := by
        rw [Benchmark.carryOut, measured]
      rcases ih (carried.step records (progress.log ++ log)) with
        ⟨others, after, ended, whole⟩ | ⟨before, stop, others, after, failure, same, fine, lost, failed, ended, part⟩
      · rw [List.append_assoc, List.singleton_append] at whole
        exact .inl ⟨List.forall_mem_cons.mpr ⟨measurable, others⟩, after, step.trans ended, whole⟩
      · rw [List.append_assoc, List.singleton_append] at part
        refine .inr ⟨task :: before, stop, others, after, failure, by rw [same]; rfl,
          List.forall_mem_cons.mpr ⟨measurable, fine⟩, lost, failed, step.trans ended, part⟩
    · refine .inr ⟨[], task, rest, { progress with log := progress.log ++ log }, failure, rfl,
        fun _ member => absurd member List.not_mem_nil, lost, by rw [measured], ?_, ?_⟩
      · rw [Benchmark.carryOut, measured]
      · rw [List.append_nil]
        exact ⟨carried.rows, carried.calls⟩

/-! ## Whole runs -/

theorem runOn_of_error (known : ProblemClass.ofName (.text settings.problemClass) = .ok problemClass)
    {failure : Failure}
    (ended : carryOut parallel settings.execution.timeout (problems.length * settings.execution.runs.toNat) {}
      (tasks algorithms problems settings.execution.runs.toNat) = (progress, .error failure)) :
    runOn settings algorithms parallel problems = (progress, .error failure) := by
  simp only [runOn, known, ended]

/-- A run on given instances carries out all tasks, or those before the first that is not measurable. -/
theorem runOn_cases (known : ProblemClass.ofName (.text settings.problemClass) = .ok problemClass)
    (algorithms : List Algorithm) (parallel : Bool) (problems : List Problem) :
    ((∀ task ∈ tasks algorithms problems settings.execution.runs.toNat,
        task.Measurable parallel settings.execution.timeout) ∧
      ∃ progress, runOn settings algorithms parallel problems = (progress, .ok progress.rows) ∧
        Carried (problems.length * settings.execution.runs.toNat)
          (tasks algorithms problems settings.execution.runs.toNat) progress) ∨
    ∃ before task others progress failure,
      tasks algorithms problems settings.execution.runs.toNat = before ++ task :: others ∧
      (∀ other ∈ before, other.Measurable parallel settings.execution.timeout) ∧
      ¬ task.Measurable parallel settings.execution.timeout ∧
      (task.measure parallel settings.execution.timeout).2 = .error failure ∧
      runOn settings algorithms parallel problems = (progress, .error failure) ∧
      Carried (problems.length * settings.execution.runs.toNat) before progress := by
  rcases (Carried.empty (problems.length * settings.execution.runs.toNat)).carryOut parallel
      settings.execution.timeout with
    ⟨measurable, progress, ended, carried⟩ |
    ⟨before, task, others, progress, failure, same, fine, lost, failed, ended, part⟩
  · refine .inl ⟨measurable, { progress with log := progress.log ++ [completeEntry progress.rows] }, ?_, carried.rows,
      carried.calls⟩
    simp only [runOn, known, ended]
  · exact .inr ⟨before, task, others, progress, failure, same, fine, lost, failed, runOn_of_error known ended, part⟩

/-- A run for which instances are at hand or can be built runs on them. Only its log may tell more. -/
theorem exists_run_eq (registered : algorithms ≠ [])
    (ready : built = problems ∧ problems ≠ [] ∨ built = [] ∧ settings.instances.build = .ok problems)
    (parallel : Bool) : ∃ log, run settings algorithms parallel built =
      ({ (runOn settings algorithms parallel problems).1 with log },
        (runOn settings algorithms parallel problems).2.map fun rows => (problems, rows)) := by
  have some : ¬ algorithms.isEmpty = true := by rwa [List.isEmpty_iff]
  unfold run
  rw [if_neg some]
  rcases ready with ⟨rfl, present⟩ | ⟨rfl, build⟩
  · rw [if_pos (by simpa using present)]
    exact ⟨_, rfl⟩
  · rw [if_neg (by simp), build]
    exact ⟨_, rfl⟩

/-- What becomes of a run for which instances are at hand or can be built. It returns exactly if every task is
measurable; then every algorithm has its rows, instance by instance and run by run, and a failure of an algorithm is
an error in the row of its task. Otherwise the run fails as its first task does that is not measurable, after those
before it have been carried out. -/
theorem run_outcome (parallel : Bool) (registered : algorithms ≠ [])
    (known : ProblemClass.ofName (.text settings.problemClass) = .ok problemClass)
    (ready : built = problems ∧ problems ≠ [] ∨ built = [] ∧ settings.instances.build = .ok problems) :
    ((∀ task ∈ tasks algorithms problems settings.execution.runs.toNat,
        task.Measurable parallel settings.execution.timeout) ∧
      ∃ progress, run settings algorithms parallel built = (progress, .ok (problems, progress.rows)) ∧
        progress.rows.length = algorithms.length * problems.length * settings.execution.runs.toNat ∧
        Carried (problems.length * settings.execution.runs.toNat)
          (tasks algorithms problems settings.execution.runs.toNat) progress) ∨
    ∃ before task others progress failure,
      tasks algorithms problems settings.execution.runs.toNat = before ++ task :: others ∧
      (∀ other ∈ before, other.Measurable parallel settings.execution.timeout) ∧
      ¬ task.Measurable parallel settings.execution.timeout ∧
      (task.measure parallel settings.execution.timeout).2 = .error failure ∧
      run settings algorithms parallel built = (progress, .error failure) ∧
      Carried (problems.length * settings.execution.runs.toNat) before progress := by
  obtain ⟨log, same⟩ := exists_run_eq registered ready parallel
  rw [same]
  rcases runOn_cases known algorithms parallel problems with
    ⟨measurable, progress, ended, carried⟩ |
    ⟨before, task, others, progress, failure, same, fine, lost, failed, ended, part⟩
  · rw [ended]
    refine .inl ⟨measurable, { progress with log }, rfl, ?_, carried.rows, carried.calls⟩
    rw [← length_tasks]
    exact carried.rows.length_eq.symm
  · rw [ended]
    exact .inr ⟨before, task, others, _, failure, same, fine, lost, failed, rfl, part.rows, part.calls⟩

/-- A benchmark of one given instance. -/
def given (problem : Problem) : BenchmarkSettings := { instances := { customInstances := [problem] } }

/-- An instance of two joined terminals among some nodes. -/
def joinedPair (nodes : List Value) : Problem := [("nodes", .list nodes),
  ("edges", .list [.dict [("source", .text "a"), ("target", .text "b")]]), ("terminals", .list [.text "a", .text "b"])]

/-- The instance with the name that it is given. -/
def namedPair (nodes : List Value) : Problem := joinedPair nodes ++ [("instance_name", .text "custom_0")]

/-- An algorithm that always fails. -/
def failing : Algorithm where
  name := "fail"
  family := "Fail"
  solve _ := ([], .failed (.raised "RuntimeError" "intentional failure"))

theorem described_namedPair : (namedPair [.text "a", .text "b"]).Described "custom_0" "custom" 2 2 :=
  ⟨rfl, ⟨[], 2, rfl, rfl, rfl, rfl⟩, rfl⟩

theorem measurable_failing {task : Task} {timeout : Binary64}
    (member : task ∈ tasks [failing] [namedPair [.text "a", .text "b"]] 1) :
    task.Measurable false timeout := by
  obtain rfl := List.mem_singleton.mp member
  exact ⟨.failed rfl, ⟨_, _, _, _, described_namedPair⟩, nofun⟩

/-- The failure of an algorithm is a row. -/
theorem run_outcome_failing : [failing] ≠ [] ∧
    ProblemClass.ofName (.text (given (joinedPair [.text "a", .text "b"])).problemClass) = .ok .steinerTree ∧
    (given (joinedPair [.text "a", .text "b"])).instances.build = .ok [namedPair [.text "a", .text "b"]] ∧
    ∃ progress, run (given (joinedPair [.text "a", .text "b"])) [failing] false [] =
        (progress, .ok ([namedPair [.text "a", .text "b"]], progress.rows)) ∧
      progress.rows.length = 1 ∧
      Carried 1 (tasks [failing] [namedPair [.text "a", .text "b"]] 1) progress := by
  have registered : [failing] ≠ [] := List.cons_ne_nil _ _
  have known : ProblemClass.ofName (.text (given (joinedPair [.text "a", .text "b"])).problemClass) =
      .ok .steinerTree := eq_ok_of_toOption (by decide +kernel)
  have build : (given (joinedPair [.text "a", .text "b"])).instances.build =
      .ok [namedPair [.text "a", .text "b"]] := rfl
  refine ⟨registered, known, build, ?_⟩
  rcases run_outcome false registered known (.inr ⟨rfl, build⟩) with
    ⟨-, progress, ended, count, carried⟩ | ⟨before, task, others, progress, failure, same, -, lost, -⟩
  · exact ⟨progress, ended, count, carried⟩
  · exact absurd (measurable_failing (same ▸ List.mem_append_right _ List.mem_cons_self)) lost

/-! ### A node that is `null`

A graph takes `null` for a label like any other, and the exact solver answers. The plain graph on which the answer is
checked does not take it. -/

/-- The graph of a joined pair behind a node that is `null`. -/
def besideNull : Graph := ⟨#[.null, .text "a", .text "b"], #[⟨.text "a-b", 1, 2⟩]⟩

def pairTree : Tree where
  terminals := [1, 2]
  vertices := [1, 2]
  links := [⟨.text "a-b", 1, 2⟩]
  cost := 1
  hub := some 1

theorem exact_besideNull : ((Algorithm.exact {}).solve (.dict (namedPair [.null, .text "a", .text "b"]))).2 =
    .returned (pairTree.toSolution besideNull) := by
  have loaded : Graph.ofInstance (.dict (namedPair [.null, .text "a", .text "b"])) = .ok besideNull := by cbv
  have asked : (Value.dict (namedPair [.null, .text "a", .text "b"])).get "terminals" (.list []) =
      .ok (.list [.text "a", .text "b"]) := rfl
  have resolved : besideNull.resolveTerminals [.text "a", .text "b"] = .ok [1, 2] := by cbv
  have best : besideNull.bestTree true [1, 2] = .ok pairTree := by cbv
  have solved : (besideNull.solveLogged {} [.text "a", .text "b"]).2 = .ok pairTree := by
    rw [Graph.solveLogged, resolved]
    simp only [Graph.solveResolved]
    rw [if_neg (by decide), if_neg (by decide), best]
  simp only [Algorithm.exact, Algorithm.solveExactly, loaded, asked, bind, Except.bind, Value.items]
  rw [solved]
  rfl

/-- The answer is a tree, but it comes to no verdict, and the run ends without rows. The second algorithm is not run. -/
theorem rows_lost_of_nullNode :
    (given (joinedPair [.null, .text "a", .text "b"])).instances.build =
      .ok [namedPair [.null, .text "a", .text "b"]] ∧
    ProblemClass.ofName (.text (given (joinedPair [.null, .text "a", .text "b"])).problemClass) = .ok .steinerTree ∧
    ∃ progress,
      run (given (joinedPair [.null, .text "a", .text "b"])) [.exact {}, .approximate (.text "kou")] false [] =
        (progress, .error .nullNode) ∧ progress.rows = [] := by
  have known : ProblemClass.ofName (.text (given (joinedPair [.null, .text "a", .text "b"])).problemClass) =
      .ok .steinerTree := eq_ok_of_toOption (by decide +kernel)
  have build : (given (joinedPair [.null, .text "a", .text "b"])).instances.build =
      .ok [namedPair [.null, .text "a", .text "b"]] := rfl
  have judged : Solution.check (.dict (namedPair [.null, .text "a", .text "b"])) (pairTree.toSolution besideNull) =
      .error .nullNode := by cbv
  have goesOn : Task.GoesOn ⟨.exact {}, namedPair [.null, .text "a", .text "b"], 0, 1⟩ false (.ofInt 60) :=
    Task.goesOn_here.mpr (exact_besideNull ▸ .returned _)
  obtain ⟨log, measured⟩ := Task.measure_of_failed_check goesOn exact_besideNull Value.noConfusion judged
  have ended : carryOut false (given (joinedPair [.null, .text "a", .text "b"])).execution.timeout 1 {}
      (tasks [.exact {}, .approximate (.text "kou")] [namedPair [.null, .text "a", .text "b"]] 1) =
      ({ log }, .error .nullNode) := by
    show carryOut false (.ofInt 60) 1 {} [⟨.exact {}, namedPair [.null, .text "a", .text "b"], 0, 1⟩, _] = _
    rw [carryOut, measured]
    rfl
  have registered : [Algorithm.exact {}, .approximate (.text "kou")] ≠ [] := List.cons_ne_nil _ _
  obtain ⟨entries, same⟩ := exists_run_eq registered (.inr ⟨rfl, build⟩) false
  rw [runOn_of_error known ended] at same
  exact ⟨build, known, _, same, rfl⟩

end Benchmark

end SteinerTrees
