import SteinerTrees.CommandLine.Commands
import SteinerTrees.Proofs.CommandLine.Scripts
import SteinerTrees.Proofs.Generator.Refusals
import SteinerTrees.Proofs.InstanceFile.Failing
import SteinerTrees.Proofs.Graph.Loaded
import SteinerTrees.Proofs.InstanceFile.Builds
import SteinerTrees.Proofs.SteinLib.Instance
import SteinerTrees.Proofs.Solver.Names

/-! # How commands fail

The example never fails without a report. To solve an instance fails so for a file that cannot be read or has more nodes
than a list has room for, and for a value of the wrong type in a file of instances; to generate one for a size that the
generator refuses, and where the file cannot be written. -/

namespace SteinerTrees

variable {g : Graph} {problem : Value} {files : Files}

/-! ## Queries -/

/-- A query on a graph whose names can be members of sets is reported to fail. -/
theorem Graph.Regular.isReported_of_solve (regular : g.Regular) {labels : List Value} {settings : SolverSettings}
    {failure : Failure} (hashable : ∀ label ∈ labels, label.isHashable = true)
    (failed : g.solve settings labels = .error failure) : failure.isReported = true := by
  rcases Graph.failure_of_solve regular.valid hashable failed with reported | ⟨-, link, member, unusable⟩
  · exact reported
  · rw [regular.names link member] at unusable
    cases unusable

/-! ## Instances of files -/

namespace InstanceFile

end InstanceFile

namespace SteinLib

variable {contents : Contents}

theorem exists_contents_of_load {path : String} {log : Log} (loaded : load files path = .ok (problem, log)) :
    ∃ (contents : Contents) (name : Value), problem = contents.withNodes name contents.labels := by
  unfold load at loaded
  split at loaded
  · obtain ⟨text, -, loaded⟩ := bind_eq_ok_iff.mp loaded
    obtain ⟨contents, -, loaded⟩ := bind_eq_ok_iff.mp loaded
    obtain ⟨listed, made, same⟩ := bind_eq_ok_iff.mp loaded
    cases same
    exact ⟨contents, _, (Contents.toInstance_eq_ok_iff.mp made).2⟩
  · cases loaded

theorem exists_of_mem_namedEdges {entry : Value} {number : Nat} {edges : List (Int × Int)}
    (member : entry ∈ Contents.namedEdges number edges) : ∃ (source target : Int) (name : String),
      entry = .dict [("source", .int source), ("target", .int target), ("name", .text name)] := by
  rw [namedEdges_eq_mapIdx, List.mem_mapIdx] at member
  obtain ⟨i, inside, rfl⟩ := member
  exact ⟨edges[i].1, edges[i].2, _, rfl⟩

/-- Nodes are numbers, and edges are named by texts. -/
theorem clean_withNodes (contents : Contents) (name : Value) : (contents.withNodes name contents.labels).Clean := by
  refine ⟨fun label member => ?_, fun entry member label found => ?_, fun entry member label found => ?_,
    fun entry member label found => ?_⟩
  · obtain ⟨v, -, rfl⟩ := List.mem_map.mp member
    exact .int _
  all_goals
    obtain ⟨source, target, name, rfl⟩ := exists_of_mem_namedEdges member
    cases found
  · exact .int _
  · exact .int _
  · rfl

end SteinLib

/-! ## The commands -/

namespace CommandLine

variable {α : Type} {settings : SolverSettings} {source : Source}

/-! ### The example -/

/-- How solving an instance ends the program. -/
inductive Source.Escapes (files : Files) : Source → Failure → Prop where
  | file {path : String} {failure : Failure} (unreadable : files.Unreadable path failure) :
    Escapes files (.instances path) failure
  /-- The file cannot be read, or it has too many nodes. -/
  | stp {path : String} {failure : Failure} (unusable : SteinLib.Unusable files path failure) :
    Escapes files (.stp path) failure
  /-- A value of an instance is of the wrong type for the check. -/
  | content {path : String} {failure : Failure} (misuse : failure.IsMisuse)
      (refused : InstanceFile.load files path = .error failure) : Escapes files (.instances path) failure
  /-- The name of an edge is no member of sets, which shows once the tree is put together. -/
  | name {path : String} {problem part : Value} {rest : List Value} {g : Graph} {link : Link}
      (loaded : InstanceFile.load files path = .ok (problem :: rest)) (built : Graph.ofInstance problem = .ok g)
      (linked : link ∈ g.links.toList) (unusable : link.name.isHashable = false) :
      Escapes files (.instances path) (.misuse (.unhashable part))

/-- The instance that a source gives. -/
inductive Source.Gives (files : Files) : Source → Value → Prop where
  | instances {path : String} {problem : Value} {rest : List Value}
      (loaded : InstanceFile.load files path = .ok (problem :: rest)) : Gives files (.instances path) problem
  | stp {path : String} {problem : Value} {log : Log} (loaded : SteinLib.load files path = .ok (problem, log)) :
      Gives files (.stp path) problem

/-- A query for labels on the graph of an instance is reported to fail, or an edge has a name that is no member of sets,
which happens to no edge of a SteinLib file. -/
theorem Source.Gives.failure_of_solve (given : source.Gives files problem) (built : Graph.ofInstance problem = .ok g)
    {labels : List Value} (hashable : ∀ label ∈ labels, label.isHashable = true) {failure : Failure}
    (failed : g.solve settings labels = .error failure) :
    failure.isReported = true ∨ source.Escapes files failure := by
  cases given with
  | instances loaded =>
    have valid := (Graph.Sound.ofInstance built).valid
    refine (Graph.failure_of_solve valid hashable failed).imp_right ?_
    rintro ⟨⟨part, rfl⟩, link, linked, unusable⟩
    exact .name loaded built linked unusable
  | stp loaded =>
    obtain ⟨contents, name, rfl⟩ := SteinLib.exists_contents_of_load loaded
    obtain ⟨regular, -⟩ := Skeleton.Mirrors.ofInstance (SteinLib.clean_withNodes contents name) built
    exact .inl (regular.isReported_of_solve hashable failed)

/-- How generating an instance ends the program. -/
inductive GenerateOptions.Escapes (files : Files) (size : Int) (output : String) (options : GenerateOptions) :
    Failure → Prop where
  | size {failure : Failure} (refused : options.generator.Refuses size failure) :
    Escapes files size output options failure
  | output {failure : Failure} (refused : files.Refuses output failure) : Escapes files size output options failure

end CommandLine

end SteinerTrees
