import SteinerTrees.Graph.Instance
import SteinerTrees.Proofs.Graph.Adding
import SteinerTrees.Proofs.Graph.Skeleton
import SteinerTrees.Proofs.Value.Reading

/-! # Two readings of an instance

An instance is read as a graph, and as a plain graph by which its solutions are checked. What the two make of
labels that are `null` or differ from themselves is not the same. On an instance without such labels the second
reading follows the first, vertex by vertex and edge by edge. -/

namespace SteinerTrees

variable {problem source destination name named a b : Value} {labels entries : List Value} {g result : Graph}
  {s : Skeleton}

namespace Value

/-- A label that is not `null` and equals itself. -/
structure Proper (label : Value) : Prop where
  present : label ≠ .null
  reflexive : label.Reflexive

theorem Proper.text (s : String) : (Value.text s).Proper := ⟨Value.noConfusion, rfl⟩

theorem Proper.int (n : Int) : (Value.int n).Proper := ⟨Value.noConfusion, rfl⟩

/-- The members of a collection that an instance may lack. -/
def members (problem : Value) (name : String) : List Value :=
  match problem.get name (.list []) >>= items with
  | .ok members => members
  | .error _ => []

theorem members_eq {name : String} (read : problem.get name (.list []) = .ok a)
    (listed : a.items = .ok labels) :
    problem.members name = labels := by
  simp only [members, read, bind, Except.bind, listed]

/-- All labels of the nodes and of the ends of edges are proper, and names of edges can be members of sets. -/
structure Clean (problem : Value) : Prop where
  nodes : ∀ label ∈ problem.members "nodes", label.Proper
  sources : ∀ entry ∈ problem.members "edges", ∀ label, entry.field "source" = .ok label → label.Proper
  targets : ∀ entry ∈ problem.members "edges", ∀ label, entry.field "target" = .ok label → label.Proper
  names : ∀ entry ∈ problem.members "edges", ∀ name, entry.get "name" .null = .ok name →
    name.isHashable = true

end Value

/-! ## The graph -/

namespace Graph

/-- A well-formed graph without loops, whose labels and names can be members of sets. -/
structure Regular (g : Graph) : Prop where
  valid : g.WellFormed
  loopless : g.Loopless
  labels : ∀ label ∈ g.labels.toList, label.isHashable = true
  names : ∀ link ∈ g.links.toList, link.name.isHashable = true

theorem Regular.empty : Graph.empty.Regular where
  valid := .empty
  loopless _ member := absurd member List.not_mem_nil
  labels _ member := absurd member List.not_mem_nil
  names _ member := absurd member List.not_mem_nil

theorem Regular.ensure (regular : g.Regular) (hashable : a.isHashable = true) : (g.ensure a).1.Regular := by
  have ensures := regular.valid.ensure a
  refine ⟨ensures.valid, ?_, forall_labels_ensure regular.labels hashable, ?_⟩
  · rw [Loopless, ensures.links]
    exact regular.loopless
  · rw [ensures.links]
    exact regular.names

theorem isHashable_of_nameOf_eq (hashable : name.isHashable = true)
    (found : nameOf source destination name = .ok named) : named.isHashable = true := by
  by_cases given : name = .null
  · subst given
    obtain ⟨-, -, rfl⟩ := defaultName_eq_ok_iff.mp found
    rfl
  · rw [nameOf_of_ne_null given] at found
    cases found
    exact hashable

theorem Regular.addEdge (regular : g.Regular) (proper : source.Proper) (hashable : name.isHashable = true)
    (destination : Value) : (g.addEdge source destination name).1.Regular := by
  have valid := regular.valid.addEdge source destination name
  have loopless := regular.loopless.addEdge regular.valid proper.reflexive destination name
  rcases addEdge_reflexive regular.valid proper.reflexive destination name with
    ⟨failure, same⟩ | ⟨-, first, second, -, same⟩
  · rw [same]
    exact regular
  · have ensured := (regular.ensure first).ensure second
    rw [same] at valid loopless ⊢
    refine ⟨valid, loopless, ?_, ?_⟩
    · rw [labels_linkNamed]
      exact ensured.labels
    · rcases linkNamed_cases ((g.ensure source).1.ensure destination).1 (nameOf source destination name)
        (g.ensure source).2 ((g.ensure source).1.ensure destination).2 with
        ⟨named, found, linked⟩ | ⟨failure, -, linked⟩
      · rw [linked]
        intro link member
        rcases mem_links_link member with old | rfl
        · exact ensured.names link old
        · exact isHashable_of_nameOf_eq hashable found
      · rw [linked]
        exact ensured.names

end Graph

/-! ## The plain graph -/

namespace Skeleton

/-- The plain graph of an instance. -/
def ofInstance (problem : Value) : Except Failure Skeleton := do
  let nodes ← problem.get "nodes" (.list [])
  let s ← (← nodes.items).foldlM Skeleton.addDescribed {}
  (← (← problem.get "edges" (.list [])).items).foldlM Skeleton.addEdge s

/-- A label that is not `null` becomes a new node. -/
theorem addNode_of_absent (hashable : a.isHashable = true) (present : a ≠ .null) (absent : s.indexOf? a = none) :
    s.addNode a = .ok { s with nodes := s.nodes.push a } := by
  have missing : s.contains a = false := by rw [contains, absent]; rfl
  have notNull : a.same .null = false := Bool.eq_false_iff.mpr fun same => present (Value.same_null_iff.mp same)
  simp only [Skeleton.addNode, Value.asLabel_of_isHashable hashable, bind, Except.bind, missing, notNull,
    Bool.false_eq_true, ↓reduceIte]
  rfl

/-- A plain graph has the vertices and edges of a graph. -/
structure Mirrors (s : Skeleton) (g : Graph) : Prop where
  nodes : s.nodes = g.labels
  edges : s.toGraph.edgeSet = g.edgeSet

namespace Mirrors

theorem empty : Mirrors {} Graph.empty where
  nodes := rfl
  edges := by
    rw [toGraph, Array.map_empty]
    rfl

theorem indexOf? (mirrors : s.Mirrors g) (a : Value) : s.indexOf? a = g.indexOf? a := by
  rw [Skeleton.indexOf?, mirrors.nodes]
  rfl

theorem hasEdge_iff (mirrors : s.Mirrors g) : s.hasEdge a b = .ok true ↔
    a.isHashable = true ∧ b.isHashable = true ∧
      ∃ u v, g.indexOf? a = some u ∧ g.indexOf? b = some v ∧ s(u, v) ∈ g.edgeSet := by
  rw [Skeleton.hasEdge, bind_eq_ok_iff]
  simp only [Value.asLabel_eq_ok_iff, mirrors.indexOf?]
  constructor
  · rintro ⟨a, ⟨first, rfl⟩, found⟩
    split at found
    · cases found
    · rename_i u start
      obtain ⟨b, read, ended⟩ := bind_eq_ok_iff.mp found
      obtain ⟨second, rfl⟩ := Value.asLabel_eq_ok_iff.mp read
      split at ended
      · cases ended
      · rename_i v stop
        have paired : s.hasPair u v = true := Except.ok.inj ended
        rw [Skeleton.hasPair_iff, mirrors.edges] at paired
        exact ⟨first, second, u, v, start, stop, paired⟩
  · rintro ⟨first, second, u, v, start, stop, paired⟩
    rw [← mirrors.edges, ← Skeleton.hasPair_iff] at paired
    refine ⟨a, ⟨first, rfl⟩, ?_⟩
    simp only [start, Value.asLabel_of_isHashable second, bind, Except.bind, stop, paired]
    rfl

theorem addNode (mirrors : s.Mirrors g) (hashable : a.isHashable = true) (proper : a.Proper) :
    ∃ t, s.addNode a = .ok t ∧ t.Mirrors (g.ensure a).1 := by
  unfold Graph.ensure
  cases found : g.indexOf? a with
  | some v => exact ⟨s, addNode_of_contains hashable ((mirrors.indexOf? a).trans found), mirrors⟩
  | none =>
    refine ⟨{ s with nodes := s.nodes.push a }, ?_, ?_, mirrors.edges⟩
    · exact addNode_of_absent hashable proper.present ((mirrors.indexOf? a).trans found)
    · rw [mirrors.nodes]
      rfl

theorem addNodes (mirrors : s.Mirrors g) (regular : g.Regular) (proper : ∀ label ∈ labels, label.Proper)
    (added : g.addNodes labels = .ok result) :
    result.Regular ∧ ∃ t, labels.foldlM addDescribed s = .ok t ∧ t.Mirrors result := by
  induction labels generalizing g s with
  | nil =>
    cases added
    exact ⟨regular, s, rfl, mirrors⟩
  | cons label rest ih =>
    obtain ⟨hashable, others⟩ := Graph.addNodes_cons_eq_ok_iff.mp added
    obtain ⟨t, here, next⟩ := mirrors.addNode hashable (proper _ List.mem_cons_self)
    obtain ⟨done, u, there, last⟩ := ih next (regular.ensure hashable)
      (fun other member => proper other (List.mem_cons_of_mem _ member)) others
    refine ⟨done, u, ?_, last⟩
    rw [List.foldlM_cons, addDescribed, if_pos hashable, here]
    exact there

/-- A new link joins the same two vertices in the plain graph. -/
theorem addPair (mirrors : s.Mirrors g) (regular : g.Regular) (first : source.isHashable = true)
    (second : destination.isHashable = true) (start : source.Proper) (stop : destination.Proper)
    (unlinked : g.isLinked source destination = false) (named : Value) :
    ∃ t, s.addPair source destination = .ok t ∧
      t.Mirrors (((g.ensure source).1.ensure destination).1.link named (g.ensure source).2
        ((g.ensure source).1.ensure destination).2) := by
  -- Both ends are nodes before they are joined, as both are vertices before they are linked.
  obtain ⟨middle, here, next⟩ := mirrors.addNode first start
  obtain ⟨last, there, both⟩ := next.addNode second stop
  have ensures := regular.valid.ensure source
  have others := ensures.valid.ensure destination
  have origin := (both.indexOf? source).trans (ensures.unlinked others regular.valid unlinked).1
  have goal := (both.indexOf? destination).trans others.found
  have joined : s.addPair source destination = .ok (last.join ⟨((g.ensure source).2,
      ((g.ensure source).1.ensure destination).2), (source, destination)⟩) := by
    simp only [Skeleton.addPair, here, there, bind, Except.bind, origin, goal]
    rfl
  refine ⟨_, joined, ?_, ?_⟩
  · rw [nodes_join, both.nodes]
    rfl
  · rw [edgeSet_join, both.edges, Graph.edgeSet_link]

theorem addEdges (mirrors : s.Mirrors g) (regular : g.Regular)
    (sources : ∀ entry ∈ entries, ∀ label, entry.field "source" = .ok label → label.Proper)
    (targets : ∀ entry ∈ entries, ∀ label, entry.field "target" = .ok label → label.Proper)
    (names : ∀ entry ∈ entries, ∀ name, entry.get "name" .null = .ok name → name.isHashable = true)
    (added : g.addEdges entries = .ok result) :
    result.Regular ∧ ∃ t, entries.foldlM Skeleton.addEdge s = .ok t ∧ t.Mirrors result := by
  induction entries generalizing g s with
  | nil =>
    cases added
    exact ⟨regular, s, rfl, mirrors⟩
  | cons entry rest ih =>
    rw [Graph.addEdges] at added
    obtain ⟨source, start, added⟩ := bind_eq_ok_iff.mp added
    obtain ⟨target, stop, added⟩ := bind_eq_ok_iff.mp added
    obtain ⟨name, called, added⟩ := bind_eq_ok_iff.mp added
    have origin := sources entry List.mem_cons_self source start
    have goal := targets entry List.mem_cons_self target stop
    have next := regular.addEdge origin (names entry List.mem_cons_self name called) target
    rcases Graph.addEdge_reflexive regular.valid origin.reflexive target name with
      ⟨failure, same⟩ | ⟨-, first, second, unlinked, same⟩
    · rw [same] at added
      cases added
    · rw [same] at added next
      rcases Graph.linkNamed_cases ((g.ensure source).1.ensure target).1 (Graph.nameOf source target name)
        (g.ensure source).2 ((g.ensure source).1.ensure target).2 with ⟨named, -, linked⟩ | ⟨failure, -, linked⟩
      · rw [linked] at added next
        obtain ⟨t, here, mirrored⟩ := mirrors.addPair regular first second origin goal unlinked named
        obtain ⟨done, u, there, last⟩ := ih mirrored next
          (fun other member => sources other (List.mem_cons_of_mem _ member))
          (fun other member => targets other (List.mem_cons_of_mem _ member))
          (fun other member => names other (List.mem_cons_of_mem _ member)) added
        refine ⟨done, u, ?_, last⟩
        simp only [List.foldlM_cons, Skeleton.addEdge, start, stop, here, bind, Except.bind]
        exact there
      · rw [linked] at added
        cases added

/-- If a clean instance can be read as a graph, its plain graph has the same vertices and edges. -/
theorem ofInstance (clean : problem.Clean) (loaded : Graph.ofInstance problem = .ok g) :
    g.Regular ∧ ∃ s, Skeleton.ofInstance problem = .ok s ∧ s.Mirrors g := by
  obtain ⟨nodes, read, loaded⟩ := bind_eq_ok_iff.mp loaded
  obtain ⟨labels, listed, loaded⟩ := bind_eq_ok_iff.mp loaded
  obtain ⟨middle, started, loaded⟩ := bind_eq_ok_iff.mp loaded
  obtain ⟨edges, found, loaded⟩ := bind_eq_ok_iff.mp loaded
  obtain ⟨entries, described, loaded⟩ := bind_eq_ok_iff.mp loaded
  have vertices := Value.members_eq read listed
  have links := Value.members_eq found described
  obtain ⟨regular, s, here, mirrored⟩ := empty.addNodes .empty (vertices ▸ clean.nodes) started
  obtain ⟨done, t, there, last⟩ := mirrored.addEdges regular (links ▸ clean.sources) (links ▸ clean.targets)
    (links ▸ clean.names) loaded
  refine ⟨done, t, ?_, last⟩
  simp only [Skeleton.ofInstance, read, listed, here, found, described, bind, Except.bind]
  exact there

end Mirrors

/-! ## The instance of a graph -/

/-- New nodes that are not `null` are added in order. -/
theorem foldlM_addNode (hashable : ∀ label ∈ labels, label.isHashable = true)
    (present : ∀ label ∈ labels, label ≠ .null) (distinct : ((s.nodes.toList ++ labels).map Value.key).Nodup) :
    labels.foldlM Skeleton.addNode s = .ok { s with nodes := s.nodes ++ labels.toArray } := by
  induction labels generalizing s with
  | nil => simp only [List.foldlM_nil, Array.append_empty]; rfl
  | cons label rest ih =>
    have fresh : s.indexOf? label = none := by
      rw [Skeleton.indexOf?, Array.findIdx?_eq_none_iff]
      intro node member
      rw [List.map_append, List.nodup_append] at distinct
      refine Bool.eq_false_iff.mpr fun same => ?_
      exact distinct.2.2 _ (List.mem_map_of_mem (Array.mem_toList_iff.mpr member)) _
        (List.mem_map_of_mem List.mem_cons_self) (Value.same_iff.mp same).symm
    have added := addNode_of_absent (hashable label List.mem_cons_self) (present label List.mem_cons_self) fresh
    rw [List.foldlM_cons, added]
    refine (ih (s := { s with nodes := s.nodes.push label })
      (fun other member => hashable other (List.mem_cons_of_mem label member))
      (fun other member => present other (List.mem_cons_of_mem label member)) ?_).trans ?_
    · rwa [Array.toList_push, List.append_assoc]
    · have listed : s.nodes.push label ++ rest.toArray = s.nodes ++ (label :: rest).toArray :=
        Array.toList_inj.mp (by simp)
      rw [← listed]

/-- Labels that can be members of sets are described by themselves. -/
theorem foldlM_addDescribed (hashable : ∀ label ∈ labels, label.isHashable = true) :
    labels.foldlM addDescribed s = labels.foldlM Skeleton.addNode s := by
  induction labels generalizing s with
  | nil => rfl
  | cons label rest ih =>
    obtain ⟨here, others⟩ := List.forall_mem_cons.mp hashable
    rw [List.foldlM_cons, List.foldlM_cons, addDescribed, if_pos here]
    exact congrArg _ (funext fun _ => ih others)

/-- The edges of a graph are joined one after the other. -/
theorem foldlM_addEdge (valid : g.WellFormed) (hashable : ∀ label ∈ g.labels.toList, label.isHashable = true)
    {links : List Link} (known : ∀ link ∈ links, link ∈ g.links.toList) (nodes : s.nodes = g.labels) :
    ∃ t, (links.map fun link => Graph.edgeEntry (g.edge link)).foldlM Skeleton.addEdge s = .ok t ∧
      t.nodes = g.labels ∧ t.toGraph.edgeSet = s.toGraph.edgeSet ∪ (links.map Link.pair).toFinset := by
  induction links generalizing s with
  | nil => exact ⟨s, rfl, nodes, by simp⟩
  | cons link rest ih =>
    obtain ⟨first, second⟩ := valid.ends link (known link List.mem_cons_self)
    have label : ∀ v < g.size, (g.label v).isHashable = true := fun v => Graph.isHashable_label hashable
    have place : ∀ v < g.size, s.indexOf? (g.label v) = some v := fun v inside => by
      rw [Skeleton.indexOf?, nodes]
      exact valid.indexOf?_label inside
    obtain ⟨t, others, kept, edges⟩ := ih
      (s := s.join ⟨(link.source, link.target), (g.label link.source, g.label link.target)⟩)
      (fun other member => known other (List.mem_cons_of_mem link member)) (by rw [nodes_join, nodes])
    refine ⟨t, ?_, kept, ?_⟩
    · rw [List.map_cons, List.foldlM_cons]
      have joined : s.addEdge (Graph.edgeEntry (g.edge link)) =
          .ok (s.join ⟨(link.source, link.target), (g.label link.source, g.label link.target)⟩) :=
        addPair_of_contains (label _ first) (label _ second) (place _ first) (place _ second)
      rw [joined]
      exact others
    · rw [edges, edgeSet_join, List.map_cons, List.toFinset_cons, Finset.insert_union, Finset.union_insert]
      rfl

/-- The instance of a graph whose labels are not `null` is read as a plain graph with the same vertices and edges. -/
theorem Mirrors.toInstance (valid : g.WellFormed) (hashable : ∀ label ∈ g.labels.toList, label.isHashable = true)
    (present : ∀ label ∈ g.labels.toList, label ≠ .null) (terminals : List Value) :
    ∃ s, Skeleton.ofInstance (g.toInstance terminals) = .ok s ∧ s.Mirrors g := by
  have nodes := (foldlM_addDescribed hashable).trans (foldlM_addNode (s := {}) hashable present valid.labels)
  obtain ⟨t, joined, kept, edges⟩ := foldlM_addEdge (s := { nodes := #[] ++ g.labels.toList.toArray }) valid hashable
    (fun link (member : link ∈ g.links.toList) => member) (by simp)
  refine ⟨t, ?_, kept, ?_⟩
  · have listed : g.edges.map Graph.edgeEntry = g.links.toList.map fun link => Graph.edgeEntry (g.edge link) :=
      List.map_map
    change (g.labels.toList.foldlM addDescribed {} >>= (g.edges.map Graph.edgeEntry).foldlM Skeleton.addEdge) = .ok t
    rw [nodes, listed]
    exact joined
  · rw [edges, toGraph, Array.map_empty]
    exact Finset.empty_union _

end Skeleton

end SteinerTrees
