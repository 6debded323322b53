import SteinerTrees.Proofs.InstanceFile.Checked
import SteinerTrees.Proofs.SteinLib.Contents

/-! # Instances of SteinLib files

The instance of an accepted file has as many nodes as its description says, and its graph can always be built, with
every node at its own index. Nodes are counted from one in a file, and nothing keeps a line from naming the node
zero or one below. Such an end or terminal is no node of the instance; all others are. -/

namespace SteinerTrees.SteinLib

variable {contents : Contents} {edges : List (Int × Int)} {number index : Nat} {text : String} {name problem : Value}
  {log : Log} {g : Graph} {e : EdgeEntry} {node : Int}

/-! ## What is listed -/

/-- Edges as they are listed, with their names from a number on. -/
def entriesFrom (number : Nat) : List (Int × Int) → List EdgeEntry
  | [] => []
  | (source, target) :: rest => ⟨.int source, .int target, .text s!"e{number}"⟩ :: entriesFrom (number + 1) rest

namespace Contents

/-- The edges as they are listed. -/
def entries (contents : Contents) : List EdgeEntry := entriesFrom 1 contents.edges

/-- The nodes that edges name, as they are listed. -/
def ended (contents : Contents) : List Int := contents.edges.flatMap fun edge => [edge.1, edge.2]

end Contents

theorem mapM_namedEdges (number : Nat) (edges : List (Int × Int)) :
    (Contents.namedEdges number edges).mapM EdgeEntry.ofValue = .ok (entriesFrom number edges) := by
  induction edges generalizing number with
  | nil => rfl
  | cons edge rest ih =>
    obtain ⟨source, target⟩ := edge
    rw [Contents.namedEdges, List.mapM_cons, ih]
    rfl

theorem flatMap_ends_entriesFrom (number : Nat) (edges : List (Int × Int)) :
    (entriesFrom number edges).flatMap EdgeEntry.ends =
      (edges.flatMap fun edge => [edge.1, edge.2]).map Value.int := by
  induction edges generalizing number with
  | nil => rfl
  | cons edge rest ih =>
    obtain ⟨source, target⟩ := edge
    rw [entriesFrom, List.flatMap_cons, ih, List.flatMap_cons, List.map_append]
    rfl

theorem exists_edge_of_mem (member : e ∈ entriesFrom number edges) :
    ∃ edge ∈ edges, ∃ k : Nat, e = ⟨.int edge.1, .int edge.2, .text s!"e{k}"⟩ := by
  induction edges generalizing number with
  | nil => cases member
  | cons edge rest ih =>
    rcases List.mem_cons.mp member with rfl | member
    · exact ⟨edge, List.mem_cons_self, number, rfl⟩
    · obtain ⟨edge, listed, entry⟩ := ih member
      exact ⟨edge, List.mem_cons_of_mem _ listed, entry⟩

/-! ## Integers as labels -/

theorem proper_of_mem (member : e ∈ entriesFrom number edges) : e.Proper := by
  obtain ⟨edge, -, k, rfl⟩ := exists_edge_of_mem member
  exact EdgeEntry.proper_int edge.1 edge.2 _

/-- Every edge has a name of its own. -/
theorem named_of_mem (member : e ∈ entriesFrom number edges) : e.Named := by
  obtain ⟨edge, -, k, rfl⟩ := exists_edge_of_mem member
  exact ⟨.text s!"e{k}", Graph.nameOf_of_ne_null nofun⟩

/-- The edges of a simple content are listed without loops and repeated pairs. -/
theorem simple_entriesFrom (loopless : ∀ edge ∈ edges, edge.1 ≠ edge.2) (nodup : (pairs edges).Nodup) :
    EdgeEntry.Simple (entriesFrom number edges) := by
  constructor
  · intro e member loop
    have same := (EdgeEntry.isLoop_iff (proper_of_mem member)).mp loop
    obtain ⟨edge, listed, k, rfl⟩ := exists_edge_of_mem member
    exact loopless edge listed (Value.key_int_iff.mp same)
  · induction edges generalizing number with
    | nil => exact .nil
    | cons edge rest ih =>
      obtain ⟨fresh, others⟩ := List.nodup_cons.mp nodup
      refine List.pairwise_cons.mpr ⟨?_, ih (fun edge member => loopless edge (List.mem_cons_of_mem _ member)) others⟩
      intro f member joins
      obtain ⟨other, listed, k, rfl⟩ := exists_edge_of_mem member
      have same := (EdgeEntry.joins_iff (EdgeEntry.proper_int edge.1 edge.2 _)).mp joins
      simp only [Value.key_int_iff] at same
      exact fresh (List.mem_map.mpr ⟨other, listed, (Sym2.eq_iff.mpr same).symm⟩)

/-! ## The graph -/

namespace Contents

/-- A node that is named is listed if it is not below zero. -/
theorem isIn_labels_iff (member : node ∈ contents.named) :
    (Value.int node).isIn contents.labels = true ↔ 0 ≤ node := by
  have below := lt_size member
  simp only [Value.isIn_iff, labels, Value.numbers, List.map_map, List.mem_map, List.mem_range, Function.comp_apply,
    Value.key_int_iff]
  constructor
  · rintro ⟨k, -, rfl⟩
    exact Int.natCast_nonneg k
  · intro positive
    exact ⟨node.toNat, by omega, Int.toNat_of_nonneg positive⟩

theorem distinct_labels (contents : Contents) : Value.distinct contents.labels = contents.labels :=
  Value.distinct_eq_self (Value.nodup_key_numbers contents.size)

/-- The graph of a content, as far as its labels tell. -/
abbrev Builds (contents : Contents) (g : Graph) : Prop :=
  Graph.Traces (contents.labels ++ contents.ended.map .int) contents.entries g

namespace Builds

theorem prefix_labels (builds : contents.Builds g) : contents.labels <+: g.labels.toList := by
  have longer := Value.distinct_prefix contents.labels (contents.ended.map .int)
  rwa [contents.distinct_labels, ← builds.labels] at longer

/-- A node has its own index. -/
theorem indexOf?_int (builds : contents.Builds g) {k : Nat} (inside : k < contents.size) :
    g.indexOf? (.int k) = some k := by
  have listed : g.labels.toList[k]? = some (.int k) := by
    obtain ⟨more, same⟩ := builds.prefix_labels
    have here : contents.labels[k]? = some (.int k) := Value.getElem?_numbers inside
    rw [← same, List.getElem?_append_left (List.getElem?_eq_some_iff.mp here).1, here]
  obtain ⟨bound, same⟩ := Array.getElem?_eq_some_iff.mp (Array.getElem?_toList ▸ listed)
  rw [← same, ← Graph.label_eq bound]
  exact builds.valid.indexOf?_label bound

theorem resolve_int (builds : contents.Builds g) (member : node ∈ contents.named) (positive : 0 ≤ node) :
    g.resolve (.int node) = .ok node.toNat := by
  have below := lt_size member
  have found := builds.indexOf?_int (show node.toNat < contents.size by omega)
  rw [Int.toNat_of_nonneg positive] at found
  exact Graph.resolve_of_indexOf? rfl found

/-- There are no other vertices if no end of an edge is below zero. -/
theorem size_eq_iff (builds : contents.Builds g) :
    g.size = contents.size ↔ ∀ node ∈ contents.ended, 0 ≤ node := by
  constructor
  · -- An end that is no node would be one more vertex, behind all nodes.
    intro same node member
    have occurs : (Value.int node).key ∈ (contents.labels ++ contents.ended.map Value.int).map Value.key :=
      List.mem_map_of_mem (List.mem_append_right _ (List.mem_map_of_mem member))
    cases found : g.indexOf? (.int node) with
    | none => exact absurd occurs (builds.indexOf?_eq_none_iff.mp found)
    | some v =>
      have inside := (Graph.indexOf?_spec found).1
      have here := builds.indexOf?_int (inside.trans_eq same)
      have equal := Value.key_int_iff.mp ((Graph.index_eq_iff found here).mp rfl)
      omega
  · intro positive
    have listed : ∀ label ∈ contents.ended.map Value.int, label.key ∈ contents.labels.map Value.key := by
      intro label member
      obtain ⟨node, ended, rfl⟩ := List.mem_map.mp member
      exact Value.isIn_iff.mp ((isIn_labels_iff (List.mem_append_left _ ended)).mpr (positive node ended))
    have whole : g.labels.toList = contents.labels := by
      rw [builds.labels, Value.distinct_append_of_mem listed, contents.distinct_labels]
    have count := congrArg List.length whole
    rwa [Array.length_toList, labels, Value.length_numbers] at count

end Builds

theorem describes_withNodes (contents : Contents) (name : Value) :
    (contents.withNodes name contents.labels).Describes contents.labels contents.entries where
  nodes := rfl
  edges := mapM_namedEdges 1 contents.edges

theorem Simple.exists_graph (simple : contents.Simple) (name : Value) :
    ∃ g, Graph.ofInstance (contents.withNodes name contents.labels) = .ok g ∧ contents.Builds g := by
  have listed : EdgeEntry.Simple contents.entries := simple_entriesFrom simple.loopless simple.pairs
  have proper : ∀ e ∈ contents.entries, e.Proper := fun _ => proper_of_mem
  have named : ∀ e ∈ contents.entries, e.Named := fun _ => named_of_mem
  rcases Graph.ofInstance_cases (contents.describes_withNodes name) Value.isHashable_of_mem_numbers proper named with
    ⟨g, built, traces⟩ | ⟨before, e, after, cause, same, -, refused, -⟩
  · rw [entries, flatMap_ends_entriesFrom] at traces
    exact ⟨g, built, traces⟩
  · exact absurd (same ▸ listed) refused.not_simple

/-- The instance passes the check of instance files as it is, if no terminal is below zero. -/
theorem check_withNodes (known : ∀ terminal ∈ contents.terminals, 0 ≤ terminal) (index : Nat) (name : Value) :
    InstanceFile.check index (contents.withNodes name contents.labels) =
      .ok (contents.withNodes name contents.labels) := by
  have lists : InstanceFile.Lists (contents.withNodes name contents.labels) contents.labels contents.entries
      (contents.terminals.map .int) := by
    refine ⟨contents.describes_withNodes name, rfl, Value.isHashable_of_mem_numbers, ?_, ?_⟩
    · exact fun e member label ended => (proper_of_mem member label ended).1
    · intro label member
      obtain ⟨terminal, listed, rfl⟩ := List.mem_map.mp member
      have inside := (isIn_labels_iff (List.mem_append_right _ listed)).mpr (known terminal listed)
      rw [List.map_append]
      exact ⟨rfl, List.mem_append_left _ (Value.isIn_iff.mp inside)⟩
  refine InstanceFile.check_of_lists lists ?_ index
  simp only [List.forall_mem_cons]
  exact ⟨rfl, rfl, rfl, rfl, rfl, fun _ member => absurd member List.not_mem_nil⟩

end Contents

/-- What the instance of a content is like. It lists the nodes from zero on, as many as its description says, and edges
without loops and repeated pairs. -/
structure Contents.IsInstance (contents : Contents) (problem : Value) : Prop where
  describes : problem.Describes contents.labels contents.entries
  terminals : problem.field "terminals" >>= Value.items = .ok (contents.terminals.map .int)
  size : problem.field "metadata" >>= (·.field "size") = .ok (.int contents.size)
  simple : EdgeEntry.Simple contents.entries
  /-- A node that an edge or a terminal names is listed, unless it is below zero. -/
  named : ∀ node ∈ contents.named, node < contents.size ∧ ((Value.int node).isIn contents.labels = true ↔ 0 ≤ node)
  /-- The graph is built, with every node at its own index. If no edge names a node below zero, it has no other
  vertices. -/
  graph : ∃ g, Graph.ofInstance problem = .ok g ∧ (∀ k < contents.size, g.indexOf? (.int k) = some k) ∧
    (g.size = contents.size ↔ ∀ node ∈ contents.ended, 0 ≤ node) ∧
    ∀ terminal ∈ contents.terminals, 0 ≤ terminal → g.resolve (.int terminal) = .ok terminal.toNat
  /-- If no terminal is below zero, the instance passes the check of instance files as it is. -/
  passes : (∀ terminal ∈ contents.terminals, 0 ≤ terminal) →
    ∀ index, InstanceFile.check index problem = .ok problem

/-- The instance of every text that is accepted is consistent, as far as no line names a node below one. -/
theorem isInstance_of_parse (parsed : parse text name = .ok (problem, log)) :
    ∃ contents, read text = .ok contents ∧ contents.IsInstance problem := by
  obtain ⟨contents, accepted, made⟩ := bind_eq_ok_iff.mp parsed
  obtain ⟨_, formed, same⟩ := bind_eq_ok_iff.mp made
  cases same
  obtain ⟨-, rfl⟩ := Contents.toInstance_eq_ok_iff.mp formed
  have simple := Contents.simple_of_read accepted
  obtain ⟨g, built, builds⟩ := simple.exists_graph name
  refine ⟨contents, accepted, contents.describes_withNodes name, rfl, rfl, builds.simple, ?_, ?_, ?_⟩
  · exact fun node member => ⟨Contents.lt_size member, Contents.isIn_labels_iff member⟩
  · exact ⟨g, built, fun k inside => builds.indexOf?_int inside, builds.size_eq_iff,
      fun terminal member => builds.resolve_int (List.mem_append_right _ member)⟩
  · exact fun known index => Contents.check_withNodes known index name

/-- A text in which one line joins two nodes. -/
def joining (first second : Nat) : String := s!"33D32945 STP File\nSECTION Graph\nNodes 2\nE {first} {second}\n"

/-- The instance of a text in which nodes are joined, here counted from zero. -/
def joined (first second : Int) : Value :=
  ({ nodes := 2, edges := [(first, second)] } : Contents).withNodes (.text "stp") [.int 0, .int 1]

theorem parse_joining_one : parse (joining 1 2) (.text "stp") = .ok (joined 0 1, []) := by
  have accepted : read (joining 1 2) = .ok { nodes := 2, edges := [(0, 1)] } := eq_ok_of_toOption (by decide +kernel)
  rw [parse, accepted]
  rfl

theorem isInstance_of_parse_joining : parse (joining 1 2) (.text "stp") = .ok (joined 0 1, []) ∧
    ∃ contents, read (joining 1 2) = .ok contents ∧ contents.IsInstance (joined 0 1) :=
  ⟨parse_joining_one, isInstance_of_parse parse_joining_one⟩

/-- A line that names the node zero is accepted, and its edge has an end that is no node of the instance. -/
theorem parse_joining_zero : ∃ problem, parse (joining 0 1) (.text "stp") = .ok (problem, []) ∧
    problem.Describes [.int 0, .int 1] [⟨.int (-1), .int 0, .text "e1"⟩] ∧
    (Value.int (-1)).isIn [.int 0, .int 1] = false := by
  have accepted : read (joining 0 1) = .ok { nodes := 2, edges := [(-1, 0)] } := eq_ok_of_toOption (by decide +kernel)
  refine ⟨joined (-1) 0, ?_, ⟨rfl, rfl⟩, by decide⟩
  rw [parse, accepted]
  rfl

end SteinerTrees.SteinLib
