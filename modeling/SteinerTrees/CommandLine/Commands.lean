import SteinerTrees.Benchmark.Run
import SteinerTrees.Benchmark.Summary
import SteinerTrees.CommandLine.Arguments
import SteinerTrees.CommandLine.Session
import SteinerTrees.InstanceFile
import SteinerTrees.SteinLib

/-! # Commands

`demo` solves a small example, `solve` an instance in a file, `generate` writes an instance that it makes
up, and `bench` compares the exact solver with two approximations. -/

namespace SteinerTrees

namespace CommandLine

/-! ## The example -/

def exampleEdges : List (String × String × String) := [
  ("A", "B", "AB_Connection"),
  ("A", "F", "AF_Connection"),
  ("B", "C", "BC_Connection"),
  ("C", "D", "CD_Connection"),
  ("B", "E", "BE_Connection"),
  ("E", "D", "ED_Connection"),
  ("E", "F", "EF_Connection")]

def exampleTerminals : List String := ["A", "B", "F"]

def exampleGraph : Graph :=
  exampleEdges.foldl (fun g (source, target, name) => (g.addEdge (.text source) (.text target) (.text name)).1)
    Graph.empty

/-- Values in the order of their display; equal displays keep their order. -/
def sortByDisplay (values : List Value) : List Value := values.mergeSort fun a b => Text.precedes a.display b.display

def demo (settings : SolverSettings) : Script Unit := do
  let g := exampleGraph
  let tree ← Script.logged (g.solveLogged settings (exampleTerminals.map .text))
  let names := sortByDisplay (tree.links.map (·.name))
  Script.print (
    [s!"Vertices in the Steiner tree: " ++ (Value.list (sortByDisplay (tree.vertices.map g.label))).shown,
      s!"Edges in the Steiner tree ({tree.cost}):"] ++
    names.map fun name => s!"  {name.display}")

/-! ## Solving an instance -/

/-- The instance of a source. -/
def Source.load (source : Source) : Script Value := do
  let files := (← get).files
  match source with
  | .stp path =>
    match SteinLib.load files path with
    | .ok (problem, log) => Script.logged (log, .ok problem)
    | .error failure => throw failure
  | .instances path =>
    match ← Script.ofExcept (InstanceFile.load files path) with
    | problem :: _ => return problem
    | [] => throw (.noInstances path)

/-- The label that a word stands for: itself if it is a vertex, else its integer if that is one. -/
def labelOf (g : Graph) (word : String) : Value :=
  if (g.indexOf? (.text word)).isSome then .text word
  else
    match Decimal.integer? word with
    | some n => if (g.indexOf? (.int n)).isSome then .int n else .text word
    | none => .text word

/-- The terminals to solve for: the given words, or else those of the instance. -/
def terminalsOf (g : Graph) (problem : Value) (words : List String) : Except Failure (List Value) :=
  if words = [] then do (← problem.get "terminals" (.list [])).items
  else .ok (words.map (labelOf g))

/-- A line of text that shows some values. -/
structure Line where
  text : String
  shown : List Value := []

/-- A tree in lines of text. -/
def treeLines (g : Graph) (name : Value) (tree : Tree) : List Line :=
  let labels (vertices : List Nat) : List Value := vertices.map g.label
  [⟨s!"Instance: {name.display} ({g.render})", [name]⟩,
    ⟨s!"Terminals: {(Value.list (labels tree.terminals)).shown}", labels tree.terminals⟩,
    ⟨s!"Minimum Steiner tree: {tree.cost} edges, {tree.vertices.length} vertices", []⟩,
    ⟨s!"Steiner points: {(Value.list (sortByDisplay (labels tree.steinerPoints))).shown}",
      labels tree.steinerPoints⟩] ++
  tree.links.map fun link =>
    let e := g.edge link
    ⟨s!"  {e.described}", [e.name, e.source, e.destination]⟩

/-- Prints lines up to the first one with a value that cannot be written. -/
def printLines : List Line → Script Unit
  | [] => pure ()
  | line :: rest =>
    if line.shown.all (·.isWritable) then do
      Script.print [line.text]
      printLines rest
    else throw .unwritable

/-- Prints a value as an indented text. -/
def printValue (value : Value) : Script Unit :=
  if value.isWritable then Script.print [Json.indented 0 value] else throw .unwritable

def solve (settings : SolverSettings) (source : Source) (options : SolveOptions) : Script Unit := do
  let problem ← source.load
  let g ← Script.ofExcept (Graph.ofInstance problem)
  Script.logged ([g.loadedEntry], .ok ())
  let terminals ← Script.ofExcept (terminalsOf g problem (options.terminals.getD []))
  let tree ← Script.logged (g.solveLogged settings terminals)
  if options.json then printValue (tree.toSolution g)
  else
    let name ← Script.ofExcept (problem.get "instance_name" (.text "custom"))
    printLines (treeLines g name tree)

/-! ## Generating an instance -/

/-- The name of a generated instance. -/
def generatedName (size : Int) (options : GenerateOptions) : String :=
  s!"{options.generator.name}_n{size}_t{options.numTerminals}"

def generate (entropy : Nat) (size : Int) (output : String) (options : GenerateOptions) : Script Unit := do
  let params := [("num_terminals", Value.int options.numTerminals), ("seed", Arguments.orNull .int options.seed)]
  let generated ← Script.ofExcept (Generated.generate options.generator entropy (.int size) params)
  let problem := generated.entries ++ [("instance_name", .text (generatedName size options))]
  Script.changeFiles fun files => InstanceFile.save files output (.list [.dict problem])
  let terminals := Value.list (generated.terminals.map fun v : Nat => .int v)
  Script.print [s!"Instance saved to {output} ({generated.layout.size} nodes, " ++
    s!"{generated.layout.edges.length} edges, terminals {terminals.shown})"]

/-! ## Benchmarks -/

/-- The benchmark that the options describe. -/
def BenchOptions.settings (options : BenchOptions) (solver : SolverSettings) : Except Failure BenchmarkSettings := do
  let generator ← GeneratorSettings.ofEntries [
    ("type", .text options.generator.name),
    ("sizes", .list (options.sizes.map .int)),
    ("num_terminals", .int options.numTerminals),
    ("count_per_size", .int options.count)]
  let execution ← ExecutionSettings.ofEntries [
    ("timeout_seconds", .float options.timeout),
    ("runs_per_config", .int options.runs)]
  return { instances := { generators := [generator] }, execution, solver }

/-- An achievement in a line of text. -/
def achievementLine (a : Achievement) : String :=
  let objective := (a.meanObjective.map (·.shown)).getD "-"
  s!"{a.algorithm}: mean objective {objective}, feasible {a.feasibleRate.shown}, runs {a.runs}"

def bench (solver : SolverSettings) (options : BenchOptions) : Script Unit := do
  let settings ← Script.ofExcept (options.settings solver)
  let algorithms := [.exact settings.solver, .approximate (.text "mehlhorn"), .approximate (.text "kou")]
  let (progress, result) := Benchmark.run settings algorithms options.parallel []
  let (_, rows) ← Script.logged (progress.log, result)
  let achievements ← Script.ofExcept (summarize rows)
  Script.print (achievements.map achievementLine)
  if let some path := options.output then
    Script.changeFiles fun files => files.write path (.sheet (sheetOf rows))
    Script.print [s!"Results saved to {path}"]

/-- Carries out a command. `entropy` stands for a seed that is not given. -/
def Command.script (settings : SolverSettings) (entropy : Nat) : Command → Script Unit
  | .demo => CommandLine.demo settings
  | .solve source options => CommandLine.solve settings source options
  | .generate size output options => CommandLine.generate entropy size output options
  | .bench options => CommandLine.bench settings options

end CommandLine

end SteinerTrees
