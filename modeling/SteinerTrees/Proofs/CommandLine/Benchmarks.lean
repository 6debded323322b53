import SteinerTrees.CommandLine.Commands
import SteinerTrees.Proofs.Benchmark.Generated
import SteinerTrees.Proofs.CommandLine.Scripts
import SteinerTrees.Proofs.Files.Failing

/-! # The benchmark command

The options of a benchmark are checked like any settings, so that each size, if there is one, has at least one instance.
The command fails for a size that the generator refuses, for want of any size, for processes that cannot be waited for,
or where its table cannot be written; every other failure is reported. -/

namespace SteinerTrees

/-! ## The settings -/

namespace Checked

variable {α : Type}

theorem all_integer (position : Nat) (numbers : List Int) : all integer position (numbers.map .int) = .ok numbers := by
  induction numbers generalizing position with
  | nil => rfl
  | cons n rest ih =>
    rw [List.map_cons, all, ih]
    rfl

theorem listOf_integer (numbers : List Int) : listOf integer (.list (numbers.map .int)) = .ok numbers :=
  all_integer 0 numbers

theorem atLeast_int_eq_ok_iff {bound n m : Int} : (integer (.int n)).atLeast bound = .ok m ↔ n = m ∧ bound ≤ m := by
  rw [atLeast, require_eq_ok_iff, integer, ok.injEq, decide_eq_true_eq]

end Checked

namespace GeneratorSettings

/-- Settings that passed have passed field by field. -/
theorem fields_of_check {settings : GeneratorSettings} {entries : List (String × Value)}
    (passed : check entries = .ok settings) :
    Checked.field "type" none Checked.text entries = .ok settings.type ∧
    Checked.fieldOf ["params", "parameters"] (some []) Checked.dictionary entries = .ok settings.params ∧
    Checked.field "sizes" none (Checked.listOf Checked.integer) entries = .ok settings.sizes ∧
    Checked.field "num_terminals" (some 4) (fun value => (Checked.integer value).atLeast 1) entries =
      .ok settings.numTerminals ∧
    Checked.field "count_per_size" (some 3) (fun value => (Checked.integer value).atLeast 1) entries =
      .ok settings.countPerSize := by
  obtain ⟨_, _, passed, counted, same_counted⟩ := Checked.seq_eq_ok_iff.mp passed
  obtain ⟨_, _, passed, wanted, same_wanted⟩ := Checked.seq_eq_ok_iff.mp passed
  obtain ⟨_, _, passed, sized, same_sized⟩ := Checked.seq_eq_ok_iff.mp passed
  obtain ⟨_, _, passed, described, same_described⟩ := Checked.seq_eq_ok_iff.mp passed
  obtain ⟨_, typed, rfl⟩ := Checked.map_eq_ok_iff.mp passed
  subst same_described same_sized same_wanted same_counted
  exact ⟨typed, described, sized, wanted, counted⟩

/-- Settings of which the type, the sizes and two numbers are given. -/
theorem eq_of_numbers {settings : GeneratorSettings} {type : String} {sizes : List Int} {terminals count : Int}
    (checked : ofEntries [("type", .text type), ("sizes", .list (sizes.map .int)), ("num_terminals", .int terminals),
      ("count_per_size", .int count)] = .ok settings) :
    settings = ⟨type, [], sizes, terminals, count⟩ ∧ 1 ≤ terminals ∧ 1 ≤ count := by
  obtain ⟨typed, described, sized, wanted, counted⟩ := fields_of_check (Checked.toExcept_eq_ok_iff.mp checked)
  obtain ⟨kind, params, extents, drawn, repeated⟩ := settings
  obtain rfl := Value.text.inj (Checked.text_eq_ok_iff.mp ((Checked.field_eq_ok_iff rfl).mp typed))
  obtain rfl : [] = params := Checked.ok.inj described
  obtain rfl := Checked.ok.inj ((Checked.listOf_integer sizes).symm.trans ((Checked.field_eq_ok_iff rfl).mp sized))
  obtain ⟨rfl, enough⟩ := Checked.atLeast_int_eq_ok_iff.mp ((Checked.field_eq_ok_iff rfl).mp wanted)
  obtain ⟨rfl, some⟩ := Checked.atLeast_int_eq_ok_iff.mp ((Checked.field_eq_ok_iff rfl).mp counted)
  exact ⟨rfl, enough, some⟩

end GeneratorSettings

namespace ExecutionSettings

/-- Settings of which the time limit and the number of runs are given. -/
theorem eq_of_numbers {settings : ExecutionSettings} {timeout : Binary64} {runs : Int}
    (checked : ofEntries [("timeout_seconds", .float timeout), ("runs_per_config", .int runs)] = .ok settings) :
    settings = ⟨timeout, runs⟩ ∧ 1 ≤ runs := by
  obtain ⟨_, _, passed, repeated, same⟩ := Checked.seq_eq_ok_iff.mp (Checked.toExcept_eq_ok_iff.mp checked)
  obtain ⟨_, limited, rfl⟩ := Checked.map_eq_ok_iff.mp passed
  subst same
  obtain ⟨rfl, some⟩ := Checked.atLeast_int_eq_ok_iff.mp ((Checked.field_eq_ok_iff rfl).mp repeated)
  obtain ⟨given, -⟩ := Checked.require_eq_ok_iff.mp ((Checked.field_eq_ok_iff rfl).mp limited)
  obtain rfl := Checked.ok.inj given
  exact ⟨rfl, some⟩

end ExecutionSettings

namespace CommandLine

variable {options : BenchOptions} {solver : SolverSettings} {files : Files}

/-- The benchmark that options describe. -/
structure BenchOptions.Describes (options : BenchOptions) (settings : BenchmarkSettings) : Prop where
  known : settings.problemClass = "steiner_tree"
  instances : settings.instances =
    { generators := [⟨options.generator.name, [], options.sizes, options.numTerminals, options.count⟩] }
  positive : 0 ≤ options.numTerminals
  count : 1 ≤ options.count
  timeout : settings.execution.timeout = options.timeout
  runs : 1 ≤ settings.execution.runs

theorem BenchOptions.describes {settings : BenchmarkSettings} (settled : options.settings solver = .ok settings) :
    options.Describes settings := by
  obtain ⟨generator, generated, settled⟩ := bind_eq_ok_iff.mp settled
  obtain ⟨execution, executed, settled⟩ := bind_eq_ok_iff.mp settled
  cases settled
  obtain ⟨rfl, enough, some⟩ := GeneratorSettings.eq_of_numbers generated
  obtain ⟨rfl, repeated⟩ := ExecutionSettings.eq_of_numbers executed
  exact ⟨rfl, rfl, by omega, some, rfl, repeated⟩

/-! ## The command -/

/-- How a benchmark ends the program. -/
inductive BenchOptions.Escapes (files : Files) (options : BenchOptions) : Failure → Prop where
  | size {failure : Failure} {size : Int} (listed : size ∈ options.sizes)
      (refused : options.generator.Refuses size failure) : Escapes files options failure
  /-- Without sizes there are no rows to summarize. -/
  | nothing (none : options.sizes = []) : Escapes files options (.missingKey (.text "status"))
  /-- A process of its own is not waited for. -/
  | wait (apart : options.parallel = true) (long : Task.isTooLong options.timeout = true) :
    Escapes files options .waitTooLong
  | output {failure : Failure} {path : String} (given : options.output = some path)
      (refused : files.Refuses path failure) : Escapes files options failure

end CommandLine

end SteinerTrees
