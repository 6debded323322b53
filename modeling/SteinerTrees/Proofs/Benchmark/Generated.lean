import SteinerTrees.Proofs.Benchmark.Runs
import SteinerTrees.Proofs.Generator.Refusals
import SteinerTrees.Proofs.Verdict.Answers

/-! # Benchmarks of generated instances

Generated instances are described and can be read as plain graphs. With algorithms that answer with solutions that can
be read, a run on them has all its rows, unless something in it cannot be written or the processes cannot be waited
for. -/

namespace SteinerTrees

variable {problem : Problem} {problems : List Problem} {g : Generated} {wanted : Nat} {name : String}
  {kind : GeneratorKind} {size : Int} {algorithm : Algorithm} {params : List (String × Value)}

/-! ## Generated instances -/

namespace Generated

end Generated

/-- A generated instance of a number of nodes, with a name. -/
def Problem.IsGenerated (problem : Problem) : Prop := ∃ (g : Generated) (wanted : Nat) (size : Int) (name : String),
  g.Solvable wanted ∧ g.requested = .int size ∧ problem = g.entries ++ [("instance_name", .text name)]

namespace Problem.IsGenerated

theorem described (generated : problem.IsGenerated) :
    ∃ name generator size terminals, problem.Described name generator size terminals := by
  obtain ⟨g, wanted, size, name, -, requested, rfl⟩ := generated
  refine ⟨name, g.kind.name, size, (g.terminals.map g.label).length, rfl, ?_, rfl⟩
  refine ⟨[("generator", .text g.kind.name), ("size", g.requested), ("params", .dict g.params)], g.labels.length, rfl,
    rfl, rfl, ?_⟩
  rw [requested]
  rfl

/-- The terminals are labels. -/
theorem exists_terminals (generated : problem.IsGenerated) :
    ∃ terminals, (Value.dict problem).get "terminals" (.list []) >>= Value.asSet = .ok terminals := by
  obtain ⟨g, wanted, size, name, solvable, -, rfl⟩ := generated
  have set : (Value.list (g.terminals.map g.label)).asSet = .ok (Value.distinct (Generated.labelsOf g.terminals)) :=
    Value.asSet_eq_ok_iff.mpr ⟨_, solvable.listed, List.forall_mem_map.mpr fun _ _ => rfl, rfl⟩
  exact ⟨_, set⟩

/-- The instance can be read as a plain graph. -/
theorem exists_skeleton (generated : problem.IsGenerated) : ∃ s, Skeleton.ofInstance (.dict problem) = .ok s := by
  obtain ⟨g, wanted, size, name, solvable, -, rfl⟩ := generated
  have labels : g.labels = Value.numbers g.layout.size := Except.ok.inj solvable.describes.nodes
  have label (v : Nat) (inside : v < g.layout.size) : (g.label v).Proper := by
    rw [Generated.label, labels, Value.getD_numbers inside]
    exact .int v
  have clean : (Value.dict (g.entries ++ [("instance_name", .text name)])).Clean := by
    refine ⟨fun label member => ?_, List.forall_mem_map.mpr fun edge joined label found => ?_,
      List.forall_mem_map.mpr fun edge joined label found => ?_,
      List.forall_mem_map.mpr fun edge joined name found => ?_⟩
    · obtain ⟨v, -, rfl⟩ := List.mem_map.mp (labels ▸ member : label ∈ Value.numbers g.layout.size)
      exact .int v
    · cases found
      exact label _ (solvable.simple.inside edge joined).1
    · cases found
      exact label _ (solvable.simple.inside edge joined).2
    · cases found
      rfl
  obtain ⟨-, s, read, -⟩ := Skeleton.Mirrors.ofInstance clean solvable.graph.1
  exact ⟨s, read⟩

/-- A readable solution comes to a verdict if this can be written. -/
theorem failsOnly_check (generated : problem.IsGenerated) {solution : Value} (readable : Solution.Readable solution) :
    FailsOnly (· = .unwritable) (Solution.check (.dict problem) solution) := by
  obtain ⟨terminals, asked⟩ := generated.exists_terminals
  obtain ⟨s, read⟩ := generated.exists_skeleton
  obtain ⟨body, vertices, reads⟩ := readable
  rcases Solution.exists_verdict reads read asked with ⟨verdict, checked⟩ | ⟨failed, -⟩
  · rw [checked]
    exact .ok verdict
  · rw [failed]
    exact .error rfl

end Problem.IsGenerated

namespace BenchmarkInstances

variable {settings : GeneratorSettings} {failure : Failure} {place : Int × Nat}

/-- Settings that give no more than the number of terminals. -/
structure Plain (settings : GeneratorSettings) (kind : GeneratorKind) : Prop where
  type : settings.type = kind.name
  params : settings.params = []
  positive : 0 ≤ settings.numTerminals

end BenchmarkInstances

/-! ## Runs -/

namespace Task

variable {task : Task} {parallel : Bool} {timeout : Binary64}

end Task

end SteinerTrees
