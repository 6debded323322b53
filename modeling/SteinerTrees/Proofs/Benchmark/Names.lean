import Mathlib
import SteinerTrees.Proofs.Benchmark.Results
import SteinerTrees.Proofs.InstanceFile.Checked
import SteinerTrees.Proofs.Json.Numbers
import SteinerTrees.Proofs.Lists

/-! # Names of instances

The name of a generated instance tells its series, that is, the generator, the size and the number of terminals, and its
number in the series. The other parameters are not told, and the numbers start anew whenever a series is asked for
again. So the names that a benchmark gives are distinct exactly if no series occurs twice. A given instance keeps the
name that it brought, and the names that the benchmark gives are not compared with it. -/

namespace SteinerTrees

variable {problem : Problem} {problems : List Problem}

/-! ## Origins -/

/-- The name that an instance has. -/
def Problem.name? (problem : Problem) : Option Value := Value.lookup? "instance_name" problem

/-- What the name of a generated instance tells, but for its number. -/
@[ext]
structure Series where
  type : String
  size : Int
  numTerminals : Int
  deriving DecidableEq

/-- What a benchmark names an instance after: its number in a series, or its place among the given instances. -/
inductive Origin where
  | generated (series : Series) (number : Nat)
  | given (place : Nat)
  deriving DecidableEq

namespace Origin

def name : Origin → String
  | generated series number => s!"{series.type}_n{series.size}_t{series.numTerminals}_{number}"
  | given place => s!"custom_{place}"

theorem toList_name_generated (series : Series) (number : Nat) : (generated series number).name.toList =
    ((series.type.toList ++ '_' :: 'n' :: (toString series.size).toList) ++
      '_' :: 't' :: (toString series.numTerminals).toList) ++ '_' :: (toString number).toList := by
  simp [name, toString]

theorem toList_name_given (place : Nat) :
    (given place).name.toList = "custom".toList ++ '_' :: (toString place).toList := by
  simp [name, toString]

theorem notMem_toString (n : Int) : '_' ∉ (toString n).toList := by
  rw [Json.toList_toString_int, List.mem_append]
  rintro (sign | digit)
  · split_ifs at sign <;> simp at sign
  · exact absurd (Decimal.isDigit_of_mem _ digit) (by decide)

theorem name_generated_ne_given (series : Series) (number place : Nat) :
    (generated series number).name ≠ (given place).name := by
  intro same
  replace same := congrArg String.toList same
  rw [toList_name_generated, toList_name_given] at same
  obtain ⟨front, -⟩ := eq_of_append_cons (notMem_toString number) (notMem_toString place) same
  have mark : '_' ∈ "custom".toList := front ▸ List.mem_append_right _ List.mem_cons_self
  exact absurd mark (by decide)

/-- A name tells its origin. -/
theorem name_injective : Function.Injective name := by
  have plain (n : Nat) : '_' ∉ (toString n).toList := notMem_toString n
  have behind {c : Char} (other : '_' ≠ c) (n : Int) : '_' ∉ c :: (toString n).toList :=
    List.not_mem_cons_of_ne_of_not_mem other (notMem_toString n)
  intro a b same
  cases a with
  | generated series number =>
    cases b with
    | generated series' number' =>
      -- Numbers have no underscores, so the name is read from its end.
      replace same := congrArg String.toList same
      rw [toList_name_generated, toList_name_generated] at same
      obtain ⟨same, number⟩ := eq_of_append_cons (plain _) (plain _) same
      obtain ⟨same, terminals⟩ := eq_of_append_cons (behind (by decide) _) (behind (by decide) _) same
      obtain ⟨type, size⟩ := eq_of_append_cons (behind (by decide) _) (behind (by decide) _) same
      obtain rfl : series = series' := Series.ext (String.toList_inj.mp type)
        (Int.repr_injective (String.toList_inj.mp (List.cons.inj size).2))
        (Int.repr_injective (String.toList_inj.mp (List.cons.inj terminals).2))
      exact congrArg (generated series) (Nat.repr_injective (String.toList_inj.mp number))
    | given place => exact absurd same (name_generated_ne_given series number place)
  | given place =>
    cases b with
    | generated series number => exact absurd same.symm (name_generated_ne_given series number place)
    | given place' =>
      replace same := congrArg String.toList same
      rw [toList_name_given, toList_name_given] at same
      obtain ⟨-, place⟩ := eq_of_append_cons (plain _) (plain _) same
      exact congrArg given (Nat.repr_injective (String.toList_inj.mp place))

/-- The origins of the instances of some series, each with the number of its instances. -/
def ofBatches (batches : List (Series × Nat)) : List Origin :=
  batches.flatMap fun batch => (List.range batch.2).map (generated batch.1)

/-- Two batches of one series have their first number in common, unless one of them is empty. -/
theorem nodup_ofBatches_iff {batches : List (Series × Nat)} :
    (ofBatches batches).Nodup ↔ ((batches.filter fun batch => 0 < batch.2).map Prod.fst).Nodup := by
  have injective : Function.Injective2 generated := fun _ _ _ _ => generated.inj
  have disjoint (a b : Nat) : (List.range a).Disjoint (List.range b) ↔ (0 < a → ¬ 0 < b) := by
    constructor
    · intro disjoint here there
      exact disjoint (List.mem_range.mpr here) (List.mem_range.mpr there)
    · intro none number here there
      exact none (Nat.zero_lt_of_lt (List.mem_range.mp here)) (Nat.zero_lt_of_lt (List.mem_range.mp there))
  unfold ofBatches
  rw [nodup_flatMap_map_iff injective, and_iff_right fun _ _ => List.nodup_range, List.Nodup, List.pairwise_map,
    List.pairwise_filter]
  apply List.Pairwise.iff
  intro a b
  rw [disjoint, decide_eq_true_eq, decide_eq_true_eq]
  tauto

end Origin

/-! ## Names of a benchmark -/

/-- The series of a generator, size by size, each with the number of its instances. -/
def GeneratorSettings.batches (settings : GeneratorSettings) : List (Series × Nat) :=
  settings.sizes.map fun size => (⟨settings.type, size, settings.numTerminals⟩, settings.countPerSize.toNat)

namespace InstanceSettings

variable {settings : InstanceSettings}

def batches (settings : InstanceSettings) : List (Series × Nat) := settings.generators.flatMap (·.batches)

/-- The series that have instances. -/
def series (settings : InstanceSettings) : List Series :=
  (settings.batches.filter fun batch => 0 < batch.2).map Prod.fst

/-- The origins of the given instances that brought no name. -/
def unnamed (settings : InstanceSettings) : List Origin :=
  (settings.customInstances.zipIdx.filter fun entry => (Problem.name? entry.1).isNone).map fun entry => .given entry.2

/-- The names that the benchmark gives. -/
def ownNames (settings : InstanceSettings) : List String :=
  (Origin.ofBatches settings.batches ++ settings.unnamed).map Origin.name

/-- The names that given instances brought. -/
def broughtNames (settings : InstanceSettings) : List Value := settings.customInstances.filterMap Problem.name?

/-- The names of all instances in their order: those of the generated ones, and for each given one the name that it
brought or that of its place. -/
def names (settings : InstanceSettings) : List Value :=
  (Origin.ofBatches settings.batches).map (fun origin => .text origin.name) ++
    settings.customInstances.zipIdx.map fun entry =>
      (Problem.name? entry.1).getD (.text (Origin.given entry.2).name)

theorem nodup_unnamed (settings : InstanceSettings) : settings.unnamed.Nodup := by
  have injective : Function.Injective Origin.given := fun _ _ => Origin.given.inj
  apply List.Nodup.sublist (List.filter_sublist.map _)
  show (settings.customInstances.zipIdx.map (Origin.given ∘ Prod.snd)).Nodup
  rw [← List.map_map, List.zipIdx_map_snd, List.nodup_map_iff injective]
  exact List.nodup_range'

/-- The names that a benchmark gives are distinct exactly if no series occurs twice. -/
theorem nodup_ownNames_iff : settings.ownNames.Nodup ↔ settings.series.Nodup := by
  have apart : ∀ a ∈ Origin.ofBatches settings.batches, ∀ b ∈ settings.unnamed, a ≠ b := by
    rintro a generated b given rfl
    obtain ⟨batch, -, member⟩ := List.mem_flatMap.mp generated
    obtain ⟨number, -, rfl⟩ := List.mem_map.mp member
    obtain ⟨entry, -, same⟩ := List.mem_map.mp given
    cases same
  rw [ownNames, List.nodup_map_iff Origin.name_injective, List.nodup_append,
    and_iff_left ⟨settings.nodup_unnamed, apart⟩]
  exact Origin.nodup_ofBatches_iff

theorem names_perm (settings : InstanceSettings) :
    settings.names.Perm (settings.ownNames.map Value.text ++ settings.broughtNames) := by
  have brought : settings.customInstances.zipIdx.filterMap (fun entry => Problem.name? entry.1) =
      settings.broughtNames := by
    rw [broughtNames, ← List.zipIdx_map_fst 0 settings.customInstances, List.filterMap_map, List.zipIdx_map_fst]
    rfl
  have filled := map_getD_perm (fun entry : Problem × Nat => entry.1.name?)
    (fun entry => .text (Origin.given entry.2).name) settings.customInstances.zipIdx
  rw [brought] at filled
  rw [names, ownNames, unnamed, List.map_append, List.map_append, List.append_assoc, List.map_map, List.map_map,
    List.map_map]
  exact filled.append_left _

/-- All names are distinct exactly if no series occurs twice, no name was brought twice, and none was brought that the
benchmark gives. -/
theorem nodup_names_iff : settings.names.Nodup ↔ settings.series.Nodup ∧ settings.broughtNames.Nodup ∧
    ∀ name ∈ settings.ownNames, .text name ∉ settings.broughtNames := by
  have injective : Function.Injective Value.text := fun _ _ => Value.text.inj
  rw [settings.names_perm.nodup_iff, List.nodup_append, List.nodup_map_iff injective, nodup_ownNames_iff,
    List.forall_mem_map]
  apply and_congr_right'
  apply and_congr_right'
  apply forall₂_congr
  intro name _
  exact ⟨fun differ brought => differ _ brought rfl, fun absent other brought same => absent (same ▸ brought)⟩

end InstanceSettings

/-! ## Instances that were built -/

namespace BenchmarkInstances

variable {settings : GeneratorSettings} {kind : GeneratorKind} {place : Int × Nat}

theorem name?_of_generateOne (made : generateOne kind settings place = .ok problem) : problem.name? =
    some (.text (Origin.generated ⟨settings.type, place.1, settings.numTerminals⟩ place.2).name) := by
  obtain ⟨params, -, made⟩ := bind_eq_ok_iff.mp made
  obtain ⟨g, -, made⟩ := bind_eq_ok_iff.mp made
  split at made
  · cases made
  · cases made
    rfl

theorem map_name?_of_generateAll (made : generateAll settings = .ok problems) : problems.map Problem.name? =
    (Origin.ofBatches settings.batches).map fun origin => some (.text origin.name) := by
  obtain ⟨kind, -, made⟩ := bind_eq_ok_iff.mp made
  rw [map_of_mapM made fun _ _ one => name?_of_generateOne one, places, Origin.ofBatches, GeneratorSettings.batches,
    List.map_flatMap, List.flatMap_map, List.map_flatMap]
  simp only [List.map_map]
  rfl

end BenchmarkInstances

open BenchmarkInstances in
/-- Every instance that was built has its name. -/
theorem InstanceSettings.map_name?_of_build {settings : InstanceSettings} (build : settings.build = .ok problems) :
    problems.map Problem.name? = settings.names.map some := by
  obtain ⟨lists, made, same⟩ := bind_eq_ok_iff.mp build
  obtain rfl := pure_eq_ok_iff.mp same
  have generated : lists.flatten.map Problem.name? =
      (Origin.ofBatches settings.batches).map fun origin => some (.text origin.name) := by
    rw [List.map_flatten, map_of_mapM made fun _ _ one => map_name?_of_generateAll one, ← List.flatMap_def, batches,
      Origin.ofBatches, List.flatMap_assoc, List.map_flatMap]
    rfl
  have given (entry : Problem × Nat) : (nameCustom entry).name? =
      some (entry.1.name?.getD (.text (Origin.given entry.2).name)) := Value.lookup?_setDefault
  rw [List.map_append, generated, names, List.map_append, List.map_map, List.map_map, List.map_map]
  simp only [Function.comp_def, given]

/-! ## Rows -/

/-- What a row is known by. -/
def Measurement.key (row : Measurement) : String × String × Int := (row.algorithm, row.instanceName, row.runIndex)

/-- The name of an instance as its rows show it. -/
def Problem.shownName (problem : Problem) : Value := problem.name?.getD (.text "unknown")

namespace Benchmark

variable {settings : BenchmarkSettings} {algorithms : List Algorithm} {built : List Problem} {rows : List Measurement}
  {parallel : Bool} {timeout : Binary64}

/-- A row is known by the names of its algorithm and its instance and by the number of its run. -/
theorem keys_of_results {subjects : List (Algorithm × Problem × Nat)}
    (results : List.Forall₂ (Results parallel timeout) subjects rows) :
    rows.map (fun row => (row.algorithm, Value.text row.instanceName, row.runIndex)) =
      subjects.map (Prod.map Algorithm.name (Prod.map Problem.shownName Int.ofNat)) := by
  induction results with
  | nil => rfl
  | @cons subject row _ _ here _ ih =>
    obtain ⟨terminals, -, described⟩ := here.records.described
    have called : subject.2.1.shownName = .text row.instanceName := described.name
    rw [List.map_cons, List.map_cons, ih, here.records.algorithm, here.records.run, ← called]
    rfl

/-- The rows of algorithms with distinct names have distinct keys exactly if the instances have distinct names. -/
theorem Returns.nodup_keys_iff {problems : List Problem}
    (returns : Returns settings algorithms parallel built problems rows)
    (distinct : (algorithms.map Algorithm.name).Nodup) (positive : 0 < settings.execution.runs) :
    (rows.map Measurement.key).Nodup ↔ (problems.map Problem.shownName).Nodup := by
  have injective : Function.Injective fun key : String × String × Int => (key.1, Value.text key.2.1, key.2.2) := by
    rintro ⟨algorithm, name, run⟩ ⟨algorithm', name', run'⟩ same
    cases same
    rfl
  have keys : (rows.map Measurement.key).map (fun key => (key.1, Value.text key.2.1, key.2.2)) =
      algorithms.map Algorithm.name ×ˢ
        (problems.map Problem.shownName ×ˢ (List.range settings.execution.runs.toNat).map Int.ofNat) := by
    rw [← map_product, ← map_product, List.map_map]
    exact keys_of_results ((forall₂_of_mapM returns.results).imp fun _ _ => results_of_result)
  have registered : algorithms.map Algorithm.name ≠ [] := List.map_eq_nil_iff.not.mpr returns.registered
  have repeated : (List.range settings.execution.runs.toNat).map Int.ofNat ≠ [] := by
    rw [ne_eq, List.map_eq_nil_iff, List.range_eq_nil]
    omega
  have runs : ((List.range settings.execution.runs.toNat).map Int.ofNat).Nodup :=
    (List.nodup_map_iff fun _ _ => Int.ofNat.inj).mpr List.nodup_range
  rw [← List.nodup_map_iff injective, keys, nodup_product_iff, or_iff_right registered, and_iff_left (.inr distinct),
    nodup_product_iff, or_iff_right repeated, and_iff_right (.inr runs)]

/-- Which instances are known by their names. Every instance has the name that it brought or that the benchmark gives
it. The names that the benchmark gives are distinct exactly if no series occurs twice. The rows of a run, of algorithms
with distinct names, are known by the names of their algorithm and instance and the number of their run exactly if,
besides, no name was brought twice and none was brought that the benchmark gives. -/
theorem identified_of_build (build : settings.instances.build = .ok problems) :
    problems.map Problem.name? = settings.instances.names.map some ∧
    (settings.instances.ownNames.Nodup ↔ settings.instances.series.Nodup) ∧
    ∀ algorithms parallel built progress rows, (algorithms.map Algorithm.name).Nodup → 0 < settings.execution.runs →
      run settings algorithms parallel built = (progress, .ok (problems, rows)) →
      ((rows.map Measurement.key).Nodup ↔ settings.instances.series.Nodup ∧ settings.instances.broughtNames.Nodup ∧
        ∀ name ∈ settings.instances.ownNames, .text name ∉ settings.instances.broughtNames) := by
  have named := InstanceSettings.map_name?_of_build build
  refine ⟨named, InstanceSettings.nodup_ownNames_iff, ?_⟩
  intro algorithms parallel built progress rows distinct positive returned
  have shown : problems.map Problem.shownName = settings.instances.names := by
    calc problems.map Problem.shownName
      _ = (problems.map Problem.name?).map fun name? => name?.getD (.text "unknown") := by
        rw [List.map_map]
        rfl
      _ = settings.instances.names := by
        rw [named, List.map_map]
        exact List.map_id _
  rw [(returns_of_run returned).nodup_keys_iff distinct positive, shown]
  exact InstanceSettings.nodup_names_iff

/-! ### Two nodes

A graph on two nodes is drawn with the chance one or zero, so that its nodes are joined or not. -/

def pairSettings (p : Int) : GeneratorSettings where
  type := "erdos_renyi"
  params := [("p", .int p)]
  sizes := [2]
  numTerminals := 2
  countPerSize := 1

def pairParams (p : Int) : List (String × Value) := [("p", .int p), ("num_terminals", .int 2), ("seed", .int 0)]

def pairSource : Source := .ofDice (.ofSeed (.int 0))

def drawnPair (p : Int) (edges : List (Nat × Nat)) (terminals : List Nat) : Generated where
  kind := .erdosRenyi
  requested := .int 2
  labels := Value.numbers 2
  layout := ⟨2, edges⟩
  terminals
  params := [("p", .int p), ("num_terminals", .int 2)]

/-- The graph with the name that it is given. -/
def namedDraw (p : Int) (edges : List (Nat × Nat)) (terminals : List Nat) : Problem :=
  (drawnPair p edges terminals).entries ++ [("instance_name", .text "erdos_renyi_n2_t2_0")]

theorem generateAll_pairSettings {p : Int} {edges : List (Nat × Nat)} {terminals : List Nat}
    (laid : Generated.layOut .erdosRenyi pairSource (.int 2) (pairParams p) (.int 0) =
      .ok (Value.numbers 2, ⟨2, edges⟩, [("p", .int p)]))
    (drawn : Generated.drawTerminals pairSource (Value.numbers 2) ⟨2, edges⟩ (.int 2) (.int 0) = .ok terminals) :
    BenchmarkInstances.generateAll (pairSettings p) = .ok [namedDraw p edges terminals] := by
  have kind : GeneratorKind.ofName (.text "erdos_renyi") = .ok .erdosRenyi := eq_ok_of_toOption (by decide +kernel)
  have seed : Generated.seedOf (pairParams p) = .int 0 := rfl
  have wanted : Generated.wantedOf (pairParams p) = .int 2 := rfl
  have generated : Generated.generateFrom .erdosRenyi pairSource (.int 2) (pairParams p) =
      .ok (drawnPair p edges terminals) := by
    rw [Generated.generateFrom, seed, wanted, laid]
    simp only [bind, Except.bind, drawn]
    rfl
  have named : BenchmarkInstances.isNamed (pairSettings p) 2 = true := by
    change BenchmarkInstances.isNamed (pairSettings 0) 2 = true
    decide +kernel
  have one : BenchmarkInstances.generateOne .erdosRenyi (pairSettings p) (2, 0) = .ok (namedDraw p edges terminals) :=
    bind_eq_ok_iff.mpr ⟨pairParams p, rfl, bind_eq_ok_iff.mpr ⟨_, generated, by rw [named]; rfl⟩⟩
  exact bind_eq_ok_iff.mpr ⟨_, kind, mapM_cons_eq_ok_iff.mpr ⟨_, [], one, rfl, rfl⟩⟩

/-- All members of a largest component of at most two nodes are drawn. -/
theorem drawTerminals_pair {edges : List (Nat × Nat)} {component : List Nat} (members : List Nat)
    (largest : Layout.largestComponent ⟨2, edges⟩ = component)
    (ordered : Value.areOrdered (component.map fun v => (Value.numbers 2).getD v .null) = true)
    (count : Generated.sampleSize (.int 2) component.length = .ok component.length)
    (sampled : pairSource.sample component.length component = members)
    (sorted : (members.mergeSort fun a b =>
      ((Value.numbers 2).getD a .null).precedes ((Value.numbers 2).getD b .null)) = component) :
    Generated.drawTerminals pairSource (Value.numbers 2) ⟨2, edges⟩ (.int 2) (.int 0) = .ok component := by
  rw [Generated.drawTerminals, if_neg (Nat.succ_ne_zero 1), largest]
  simp only [Generated.checkSeed, ordered, count, sampled, sorted, bind, Except.bind, pure, Except.pure]
  rfl

theorem generateAll_joined : BenchmarkInstances.generateAll (pairSettings 1) = .ok [namedDraw 1 [(0, 1)] [0, 1]] :=
  generateAll_pairSettings rfl
    (drawTerminals_pair [1, 0] (by decide +kernel) rfl rfl (by decide +kernel) (by cbv))

theorem generateAll_apart : BenchmarkInstances.generateAll (pairSettings 0) = .ok [namedDraw 0 [] [0]] :=
  generateAll_pairSettings rfl (drawTerminals_pair [0] (by decide +kernel) rfl rfl (by decide +kernel) (by cbv))

/-- A joined pair that brought a name. -/
def broughtPair (name : String) : Problem := joinedPair [.text "a", .text "b"] ++ [("instance_name", .text name)]

/-- A benchmark of generated graphs, of a pair that brought a name and of one without. -/
def mixed (generators : List GeneratorSettings) (name : String) : BenchmarkSettings where
  instances := { generators, customInstances := [broughtPair name, joinedPair [.text "a", .text "b"]] }

theorem build_mixed {generators : List GeneratorSettings} {lists : List (List Problem)}
    (made : generators.mapM BenchmarkInstances.generateAll = .ok lists) (name : String) :
    (mixed generators name).instances.build = .ok (lists.flatten ++ [broughtPair name, broughtPair "custom_1"]) :=
  bind_eq_ok_iff.mpr ⟨lists, made, rfl⟩

theorem described_namedDraw (p : Int) (edges : List (Nat × Nat)) (terminals : List Nat) :
    ∃ name generator size terminals', (namedDraw p edges terminals).Described name generator size terminals' :=
  ⟨"erdos_renyi_n2_t2_0", "erdos_renyi", 2, _, rfl, ⟨_, 2, rfl, rfl, rfl, rfl⟩, rfl⟩

theorem described_broughtPair (name : String) :
    ∃ name' generator size terminals, (broughtPair name).Described name' generator size terminals :=
  ⟨name, "custom", 2, 2, rfl, ⟨[], 2, rfl, rfl, rfl, rfl⟩, rfl⟩

/-- An algorithm that fails has rows on all instances, if the generated ones are described. -/
theorem exists_returns_mixed {generators : List GeneratorSettings} {lists : List (List Problem)}
    (made : generators.mapM BenchmarkInstances.generateAll = .ok lists)
    (drawn : ∀ problem ∈ lists.flatten,
      ∃ name generator size terminals, problem.Described name generator size terminals) (name : String) :
    ∃ rows, Returns (mixed generators name) [failing] false []
      (lists.flatten ++ [broughtPair name, broughtPair "custom_1"]) rows := by
  have known : ProblemClass.ofName (.text "steiner_tree") = .ok .steinerTree := eq_ok_of_toOption (by decide +kernel)
  apply exists_returns (List.cons_ne_nil _ _) known (.inr ⟨rfl, build_mixed made name⟩)
  intro algorithm one problem member number
  obtain rfl := List.mem_singleton.mp one
  apply measurable_of_failed (Task.goesOn_here.mpr (.failed rfl)) _ rfl
  rcases List.mem_append.mp member with generated | given
  · exact drawn problem generated
  · rcases List.mem_pair.mp given with rfl | rfl <;> exact described_broughtPair _

/-- A drawn graph, a pair that brought its name, and the pair in the second place. -/
theorem identified_of_build_mixed : ∃ progress rows,
    (mixed [pairSettings 1] "given").instances.build =
      .ok [namedDraw 1 [(0, 1)] [0, 1], broughtPair "given", broughtPair "custom_1"] ∧
    [namedDraw 1 [(0, 1)] [0, 1], broughtPair "given", broughtPair "custom_1"].map Problem.name? =
      [some (.text "erdos_renyi_n2_t2_0"), some (.text "given"), some (.text "custom_1")] ∧
    (mixed [pairSettings 1] "given").instances.ownNames = ["erdos_renyi_n2_t2_0", "custom_1"] ∧
    (mixed [pairSettings 1] "given").instances.ownNames.Nodup ∧
    run (mixed [pairSettings 1] "given") [failing] false [] = (progress,
      .ok ([namedDraw 1 [(0, 1)] [0, 1], broughtPair "given", broughtPair "custom_1"], rows)) ∧
    (rows.map Measurement.key).Nodup := by
  have made : [pairSettings 1].mapM BenchmarkInstances.generateAll = .ok [[namedDraw 1 [(0, 1)] [0, 1]]] :=
    mapM_cons_eq_ok_iff.mpr ⟨_, [], generateAll_joined, rfl, rfl⟩
  have build := build_mixed made "given"
  obtain ⟨rows, returns⟩ := exists_returns_mixed made (List.forall_mem_singleton.mpr (described_namedDraw ..)) "given"
  obtain ⟨log, returned⟩ := returns.run_eq
  obtain ⟨named, distinct, known⟩ := identified_of_build build
  have once : (mixed [pairSettings 1] "given").instances.series.Nodup := by decide +kernel
  have own : (mixed [pairSettings 1] "given").instances.ownNames = ["erdos_renyi_n2_t2_0", "custom_1"] := by
    decide +kernel
  have brought : (mixed [pairSettings 1] "given").instances.broughtNames = [.text "given"] := rfl
  refine ⟨_, rows, build, named, own, distinct.mpr once, returned, ?_⟩
  apply (known [failing] false [] _ rows (List.nodup_singleton _) (by decide) returned).mpr
  rw [own, brought]
  exact ⟨once, List.nodup_singleton _, by simp⟩

/-- The name does not tell the chance, so that two graphs have one name. The pair in the second place is given the name
that the pair in the first place brought. -/
theorem clash_of_chances : ∃ progress rows,
    (mixed [pairSettings 1, pairSettings 0] "custom_1").instances.build =
      .ok [namedDraw 1 [(0, 1)] [0, 1], namedDraw 0 [] [0], broughtPair "custom_1", broughtPair "custom_1"] ∧
    (mixed [pairSettings 1, pairSettings 0] "custom_1").instances.ownNames =
      ["erdos_renyi_n2_t2_0", "erdos_renyi_n2_t2_0", "custom_1"] ∧
    (mixed [pairSettings 1, pairSettings 0] "custom_1").instances.broughtNames = [.text "custom_1"] ∧
    run (mixed [pairSettings 1, pairSettings 0] "custom_1") [failing] false [] = (progress,
      .ok ([namedDraw 1 [(0, 1)] [0, 1], namedDraw 0 [] [0], broughtPair "custom_1", broughtPair "custom_1"], rows)) ∧
    ¬ (rows.map Measurement.key).Nodup := by
  have made : [pairSettings 1, pairSettings 0].mapM BenchmarkInstances.generateAll =
      .ok [[namedDraw 1 [(0, 1)] [0, 1]], [namedDraw 0 [] [0]]] :=
    mapM_cons_eq_ok_iff.mpr ⟨_, _, generateAll_joined,
      mapM_cons_eq_ok_iff.mpr ⟨_, [], generateAll_apart, rfl, rfl⟩, rfl⟩
  have build := build_mixed made "custom_1"
  have drawn : ∀ problem ∈ [namedDraw 1 [(0, 1)] [0, 1], namedDraw 0 [] [0]],
      ∃ name generator size terminals, problem.Described name generator size terminals :=
    List.forall_mem_cons.mpr ⟨described_namedDraw .., List.forall_mem_singleton.mpr (described_namedDraw ..)⟩
  obtain ⟨rows, returns⟩ := exists_returns_mixed made drawn "custom_1"
  obtain ⟨log, returned⟩ := returns.run_eq
  refine ⟨_, rows, build, by decide +kernel, rfl, returned, ?_⟩
  rw [returns.nodup_keys_iff (List.nodup_singleton _) (by decide)]
  intro distinct
  exact (List.nodup_cons.mp distinct).1 List.mem_cons_self

end Benchmark

end SteinerTrees
