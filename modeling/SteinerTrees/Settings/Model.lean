import SteinerTrees.Settings.Checked
import SteinerTrees.Solver.Solve
import SteinerTrees.Value.Number

/-! # Settings

The settings of the solver and of benchmark runs, and the record of one measurement. Each is read from
the entries of a dictionary, where unknown entries are ignored, and written back as a dictionary. -/

namespace SteinerTrees

namespace Value

mutual
/-- A value as it is written back: tuples are lists, and floats that are not finite are left out. -/
def plain : Value → Value
  | tuple items | list items => list (plainItems items)
  | float x => if x.isFinite then float x else null
  | dict entries => dict (plainEntries entries)
  | other => other

def plainItems : List Value → List Value
  | [] => []
  | item :: rest => plain item :: plainItems rest

def plainEntries : List (String × Value) → List (String × Value)
  | [] => []
  | (name, value) :: rest => (name, plain value) :: plainEntries rest
end

end Value

namespace SolverSettings

def check (entries : List (String × Value)) : Checked SolverSettings :=
  .mk <$> Checked.field "max_terminals" (some 16) (fun value => (Checked.integer value).atLeast 1) entries
    <*> Checked.field "relaxation" (some true) Checked.truth entries

def ofEntries (entries : List (String × Value)) : Except Failure SolverSettings :=
  (check entries).toExcept "SolverConfig"

def dump (settings : SolverSettings) : Value :=
  .dict [("max_terminals", .int settings.maxTerminals), ("relaxation", .bool settings.relaxation)]

end SolverSettings

/-- How instances of one kind are generated. -/
structure GeneratorSettings where
  type : String
  params : List (String × Value) := []
  sizes : List Int
  numTerminals : Int := 4
  countPerSize : Int := 3
  deriving Repr

namespace GeneratorSettings

def check (entries : List (String × Value)) : Checked GeneratorSettings :=
  .mk <$> Checked.field "type" none Checked.text entries
    <*> Checked.fieldOf ["params", "parameters"] (some []) Checked.dictionary entries
    <*> Checked.field "sizes" none (Checked.listOf Checked.integer) entries
    <*> Checked.field "num_terminals" (some 4) (fun value => (Checked.integer value).atLeast 1) entries
    <*> Checked.field "count_per_size" (some 3) (fun value => (Checked.integer value).atLeast 1) entries

def ofEntries (entries : List (String × Value)) : Except Failure GeneratorSettings :=
  (check entries).toExcept "GeneratorConfig"

def dump (settings : GeneratorSettings) : Value :=
  .dict [("type", .text settings.type), ("params", (Value.dict settings.params).plain),
    ("sizes", .list (settings.sizes.map .int)), ("num_terminals", .int settings.numTerminals),
    ("count_per_size", .int settings.countPerSize)]

end GeneratorSettings

/-- The instances of a benchmark: generated ones, then given ones. -/
structure InstanceSettings where
  generators : List GeneratorSettings := []
  customInstances : List (List (String × Value)) := []
  deriving Repr

namespace InstanceSettings

def check (entries : List (String × Value)) : Checked InstanceSettings :=
  .mk <$> Checked.field "generators" (some []) (Checked.listOf (Checked.model GeneratorSettings.check)) entries
    <*> Checked.field "custom_instances" (some []) (Checked.listOf Checked.dictionary) entries

def ofEntries (entries : List (String × Value)) : Except Failure InstanceSettings :=
  (check entries).toExcept "InstanceConfig"

def dump (settings : InstanceSettings) : Value :=
  .dict [("generators", .list (settings.generators.map (·.dump))),
    ("custom_instances", .list (settings.customInstances.map fun entries => (Value.dict entries).plain))]

end InstanceSettings

/-- The limits of a benchmark. -/
structure ExecutionSettings where
  timeout : Binary64 := .ofInt 60
  runs : Int := 1
  deriving Repr

namespace ExecutionSettings

def positive (x : Binary64) : Bool := (Quantity.ofInt 0).isBelow x.quantity

def check (entries : List (String × Value)) : Checked ExecutionSettings :=
  .mk <$> Checked.field "timeout_seconds" (some (.ofInt 60))
      (fun value => (Checked.number value).require positive "greater_than") entries
    <*> Checked.field "runs_per_config" (some 1) (fun value => (Checked.integer value).atLeast 1) entries

def ofEntries (entries : List (String × Value)) : Except Failure ExecutionSettings :=
  (check entries).toExcept "ExecutionConfig"

def dump (settings : ExecutionSettings) : Value :=
  .dict [("timeout_seconds", .float settings.timeout), ("runs_per_config", .int settings.runs)]

end ExecutionSettings

structure BenchmarkSettings where
  problemClass : String := "steiner_tree"
  instances : InstanceSettings
  execution : ExecutionSettings := {}
  solver : SolverSettings := {}
  deriving Repr

namespace BenchmarkSettings

def check (entries : List (String × Value)) : Checked BenchmarkSettings :=
  .mk <$> Checked.field "problem_class" (some "steiner_tree") Checked.text entries
    <*> Checked.field "instance_config" none (Checked.model InstanceSettings.check) entries
    <*> Checked.field "execution_config" (some {}) (Checked.model ExecutionSettings.check) entries
    <*> Checked.field "solver" (some {}) (Checked.model SolverSettings.check) entries

def ofEntries (entries : List (String × Value)) : Except Failure BenchmarkSettings :=
  (check entries).toExcept "BenchmarkConfig"

def dump (settings : BenchmarkSettings) : Value :=
  .dict [("problem_class", .text settings.problemClass), ("instance_config", settings.instances.dump),
    ("execution_config", settings.execution.dump), ("solver", settings.solver.dump)]

end BenchmarkSettings

/-- How a run ended. -/
inductive RunStatus where
  | success
  | timeout
  | error
  deriving DecidableEq, Repr

namespace RunStatus

def name : RunStatus → String
  | success => "success"
  | timeout => "timeout"
  | error => "error"

def check : Value → Checked RunStatus
  | .text "success" => .ok success
  | .text "timeout" => .ok timeout
  | .text "error" => .ok error
  | _ => .fault "enum"

end RunStatus

/-- The measurement of one algorithm on one instance. -/
structure Measurement where
  algorithm : String
  instanceName : String
  generator : String
  problemSize : Int
  numTerminals : Int := 0
  objective : Option Binary64 := none
  wallTime : Binary64 := .ofInt 0
  peakMemory : Binary64 := .ofInt 0
  status : RunStatus := .success
  runIndex : Int := 0
  feasible : Bool := true
  errorMessage : String := ""
  deriving Repr

namespace Measurement

def optionalNumber : Value → Checked (Option Binary64)
  | .null => .ok none
  | value => some <$> Checked.number value

def check (entries : List (String × Value)) : Checked Measurement :=
  .mk <$> Checked.field "algorithm_name" none Checked.text entries
    <*> Checked.field "instance_name" none Checked.text entries
    <*> Checked.field "instance_generator" none Checked.text entries
    <*> Checked.field "problem_size" none Checked.integer entries
    <*> Checked.field "num_terminals" (some 0) Checked.integer entries
    <*> Checked.field "objective_value" (some none) optionalNumber entries
    <*> Checked.field "wall_time_seconds" (some (.ofInt 0)) Checked.number entries
    <*> Checked.field "peak_memory_mb" (some (.ofInt 0)) Checked.number entries
    <*> Checked.field "status" (some .success) RunStatus.check entries
    <*> Checked.field "run_index" (some 0) Checked.integer entries
    <*> Checked.field "feasible" (some true) Checked.truth entries
    <*> Checked.field "error_message" (some "") Checked.text entries

def ofEntries (entries : List (String × Value)) : Except Failure Measurement :=
  (check entries).toExcept "BenchmarkResult"

def entries (m : Measurement) : List (String × Value) := [
  ("algorithm_name", .text m.algorithm),
  ("instance_name", .text m.instanceName),
  ("instance_generator", .text m.generator),
  ("problem_size", .int m.problemSize),
  ("num_terminals", .int m.numTerminals),
  ("objective_value", (m.objective.map .float).getD .null),
  ("wall_time_seconds", .float m.wallTime),
  ("peak_memory_mb", .float m.peakMemory),
  ("status", .text m.status.name),
  ("run_index", .int m.runIndex),
  ("feasible", .bool m.feasible),
  ("error_message", .text m.errorMessage)]

def dump (m : Measurement) : Value := .dict m.entries

end Measurement

/-! ## Models by name -/

/-- Attributes that every model has and that cannot be assigned. -/
def fixedAttributes : List String := ["model_extra", "model_fields_set", "__fields_set__", "__weakref__"]

/-- What a field is declared to hold, as far as it matters for what is assigned to it. -/
inductive FieldKind where
  | integer
  | integers
  | number
  | other
  deriving DecidableEq, Repr

def FieldKind.ofName : String → FieldKind
  | "max_terminals" | "num_terminals" | "count_per_size" | "runs_per_config" | "problem_size" | "run_index" => integer
  | "sizes" => integers
  | "timeout_seconds" | "objective_value" | "wall_time_seconds" | "peak_memory_mb" => number
  | _ => other

/-- A value in place of an integer, as it is written back. -/
def writtenInteger : Value → Value
  | .bool b => .int b.toInt
  | value => value.plain

/-- A value in place of a float, as it is written back: other numbers become floats. -/
def writtenNumber : Value → Except Failure Value
  | .float x => .ok (.float x)
  | .int n =>
    let x := Binary64.ofInt n
    if x.isFinite then .ok (.float x) else .error .numberTooLarge
  | .bool b => .ok (.float (.ofInt b.toInt))
  | value => .ok value.plain

/-- A value that was assigned to a field, as it is written back. -/
def written (name : String) (value : Value) : Except Failure Value :=
  match FieldKind.ofName name, value with
  | .integer, value => .ok (writtenInteger value)
  | .integers, .list items => .ok (.list (items.map writtenInteger))
  | .number, value => writtenNumber value
  | _, value => .ok value.plain

/-- The fields of a model as they are written back, which may fail. -/
abbrev Fields := List (String × Except Failure Value)

/-- The fields of a model after an assignment. The settings of the solver cannot be changed; the others
accept any value for a field they have. Names that start with an underscore are kept apart from the fields. -/
def assign (model : String) (fields : Fields) (name : String) (value : Value) : Except Failure Fields :=
  if name = "__class__" then .error (.misuse (.notType value))
  else if name = "__dict__" then
    match value with
    | .dict entries =>
      let kept := entries.filter fun entry => (Value.lookup? entry.1 fields).isSome
      .ok (kept.map fun entry => (entry.1, written entry.1 entry.2))
    | other => .error (.misuse (.notType other))
  else if name.startsWith "_" then
    if name ∈ fixedAttributes then .error (.fixedAttribute model name) else .ok fields
  else if model = "SolverConfig" then .error (.invalid model [⟨[name], "frozen_instance"⟩])
  else if name ∈ fixedAttributes then .error (.fixedAttribute model name)
  else if (Value.lookup? name fields).isNone then .error (.unknownSetting model name)
  else .ok (Value.setEntry name (written name value) fields)

/-- The fields of a model, by its name, that is read from entries. -/
def fieldsOf (model : String) (entries : List (String × Value)) : Except Failure (List (String × Value)) := do
  let dumped ← match model with
    | "SolverConfig" => (·.dump) <$> SolverSettings.ofEntries entries
    | "GeneratorConfig" => (·.dump) <$> GeneratorSettings.ofEntries entries
    | "InstanceConfig" => (·.dump) <$> InstanceSettings.ofEntries entries
    | "ExecutionConfig" => (·.dump) <$> ExecutionSettings.ofEntries entries
    | "BenchmarkConfig" => (·.dump) <$> BenchmarkSettings.ofEntries entries
    | _ => (·.dump) <$> Measurement.ofEntries entries
  match dumped with
  | .dict fields => return fields
  | _ => return []

/-- The dictionary of a model that is read from entries and then has some of its fields replaced. -/
def dumpModel (model : String) (entries changes : List (String × Value)) : Except Failure Value := do
  let fields : Fields := (← fieldsOf model entries).map fun (name, value) => (name, .ok value)
  let fields ← changes.foldlM (fun fields change => assign model fields change.1 change.2) fields
  .dict <$> fields.mapM fun (name, value) => do return (name, ← value)

end SteinerTrees
