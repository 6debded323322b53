import SteinerTrees.Graph.Hops
import SteinerTrees.Proofs.Graph.Joined
import SteinerTrees.Proofs.Value.Distinct

/-! # Well-formed graphs

The labels of a well-formed graph are different values, and each link joins two vertices that no other link
joins. Every graph that is built by adding vertices and edges is well-formed; then an index, a label and a pair
of neighbours determine each other. -/

namespace SteinerTrees

/-- The two ends of a link, without order. -/
def Link.pair (link : Link) : Sym2 Nat := s(link.source, link.target)

namespace Link

variable {link : Link} {u v : Nat}

theorem other?_eq_some_iff : link.other? u = some v ↔ link.pair = s(u, v) := by
  simp only [other?, pair, Sym2.eq_iff]
  split_ifs with first second
  · subst first
    simp only [Option.some.injEq, true_and]
    constructor
    · exact .inl
    · rintro (same | ⟨rfl, same⟩)
      · exact same
      · exact same
  · subst second
    simp only [Option.some.injEq, first, false_and, and_true, false_or]
  · simp only [first, second, false_and, and_false, or_self]

theorem joins_iff : link.joins u v = true ↔ link.pair = s(u, v) := by
  rw [joins, beq_iff_eq, other?_eq_some_iff]

end Link

namespace Graph

variable {g : Graph} {a b label name : Value} {link : Link} {u v : Nat}

/-- The pairs that the links join, in order. -/
def pairs (g : Graph) : List (Sym2 Nat) := g.links.toList.map Link.pair

/-- The pairs that the links join, as a set of edges. -/
def edgeSet (g : Graph) : Edges := g.pairs.toFinset

/-- Labels differ, and each link joins two vertices that no other link joins. -/
structure WellFormed (g : Graph) : Prop where
  labels : (g.labels.toList.map Value.key).Nodup
  ends : ∀ link ∈ g.links.toList, link.source < g.size ∧ link.target < g.size
  pairs : g.pairs.Nodup

theorem mem_edgeSet_iff {edge : Sym2 Nat} : edge ∈ g.edgeSet ↔ ∃ link ∈ g.links.toList, link.pair = edge := by
  rw [edgeSet, List.mem_toFinset, Graph.pairs, List.mem_map]

theorem mem_edgeSet_of_mem (member : link ∈ g.links.toList) : link.pair ∈ g.edgeSet :=
  mem_edgeSet_iff.mpr ⟨link, member, rfl⟩

/-! ## Neighbours -/

theorem mem_neighbors_iff : v ∈ g.neighbors u ↔ s(u, v) ∈ g.edgeSet := by
  simp only [neighbors, List.mem_filterMap, Link.other?_eq_some_iff, mem_edgeSet_iff]

theorem linkBetween?_eq_none_iff : g.linkBetween? u v = none ↔ s(u, v) ∉ g.edgeSet := by
  simp only [linkBetween?, Array.find?_eq_none, Link.joins_iff, mem_edgeSet_iff, not_exists, not_and,
    Array.mem_toList_iff]

theorem linkBetween?_of_mem (edge : s(u, v) ∈ g.edgeSet) :
    ∃ link ∈ g.links.toList, g.linkBetween? u v = some link ∧ link.pair = s(u, v) := by
  cases found : g.linkBetween? u v with
  | none => exact absurd edge (linkBetween?_eq_none_iff.mp found)
  | some link =>
    rw [linkBetween?] at found
    have joins := Array.find?_some found
    exact ⟨link, Array.mem_toList_iff.mpr (Array.mem_of_find?_eq_some found), rfl, Link.joins_iff.mp joins⟩

theorem adjacency_size (g : Graph) : g.adjacency.size = g.size := by
  simp only [adjacency, vertices, List.size_toArray, List.length_map, List.length_range]

theorem WellFormed.lt_size (valid : g.WellFormed) (edge : s(u, v) ∈ g.edgeSet) : u < g.size ∧ v < g.size := by
  obtain ⟨link, member, same⟩ := mem_edgeSet_iff.mp edge
  obtain ⟨first, second⟩ := valid.ends link member
  rcases Sym2.eq_iff.mp same with ⟨rfl, rfl⟩ | ⟨rfl, rfl⟩
  · exact ⟨first, second⟩
  · exact ⟨second, first⟩

/-- The lists of neighbours say what the links say. -/
theorem WellFormed.mem_adjacency_iff (valid : g.WellFormed) :
    v ∈ g.adjacency.getD u [] ↔ s(u, v) ∈ g.edgeSet := by
  by_cases inside : u < g.size
  · have entry : g.adjacency.getD u [] = g.neighbors u := by
      simp only [adjacency, vertices, Array.getD_eq_getD_getElem?, List.getElem?_toArray, List.getElem?_map,
        List.getElem?_range inside, Option.map_some, Option.getD_some]
    rw [entry, mem_neighbors_iff]
  · have entry : g.adjacency.getD u [] = [] := by
      rw [Array.getD_eq_getD_getElem?, Array.getElem?_eq_none (by rw [adjacency_size]; omega),
        Option.getD_none]
    rw [entry]
    exact ⟨fun member => absurd member List.not_mem_nil, fun edge => absurd (valid.lt_size edge).1 inside⟩

/-! ## Labels -/

theorem indexOf?_congr (same : a.key = b.key) : g.indexOf? a = g.indexOf? b := by
  simp only [indexOf?, Value.same, same]

theorem label_eq (inside : v < g.size) : g.label v = getElem g.labels v inside := by
  simp only [Graph.label, Array.getD_eq_getD_getElem?, Array.getElem?_eq_getElem inside, Option.getD_some]

theorem indexOf?_eq_none_iff : g.indexOf? a = none ↔ ∀ v < g.size, (g.label v).key ≠ a.key := by
  simp only [indexOf?, Array.findIdx?_eq_none_iff, Value.same, beq_eq_false_iff_ne]
  constructor
  · intro absent v inside
    rw [label_eq inside]
    exact (absent _ (Array.getElem_mem _)).symm
  · intro absent x member
    obtain ⟨v, inside, rfl⟩ := Array.mem_iff_getElem.mp member
    have differs := absent v inside
    rw [label_eq inside] at differs
    exact differs.symm

theorem indexOf?_spec (found : g.indexOf? a = some v) : v < g.size ∧ (g.label v).key = a.key := by
  obtain ⟨inside, same, -⟩ := Array.findIdx?_eq_some_iff_getElem.mp found
  refine ⟨inside, ?_⟩
  rw [label_eq inside]
  exact (beq_iff_eq.mp same).symm

theorem resolve_of_indexOf? (hashable : a.isHashable = true) (found : g.indexOf? a = some v) : g.resolve a = .ok v := by
  simp only [resolve, Value.asLabel_of_isHashable hashable, bind, Except.bind, found]
  rfl

theorem resolve_of_absent (hashable : a.isHashable = true) (absent : g.indexOf? a = none) :
    g.resolve a = .error (Failure.vertexNotFound a).written := by
  simp only [resolve, Value.asLabel_of_isHashable hashable, bind, Except.bind, absent]
  rfl

theorem WellFormed.eq_of_key_eq (valid : g.WellFormed) (first : u < g.size) (second : v < g.size)
    (same : (g.label u).key = (g.label v).key) : u = v := by
  rw [label_eq first, label_eq second] at same
  have bound : ∀ {i : Nat}, i < g.size → i < (g.labels.toList.map Value.key).length := by
    intro i inside
    rwa [List.length_map, Array.length_toList]
  exact (@List.Nodup.getElem_inj_iff _ _ valid.labels _ (bound first) _ (bound second)).mp
    (by rw [List.getElem_map, List.getElem_map, Array.getElem_toList, Array.getElem_toList]; exact same)

theorem WellFormed.indexOf?_eq_some_iff (valid : g.WellFormed) :
    g.indexOf? a = some v ↔ v < g.size ∧ (g.label v).key = a.key := by
  refine ⟨indexOf?_spec, ?_⟩
  rintro ⟨inside, same⟩
  cases found : g.indexOf? a with
  | none => exact absurd same (indexOf?_eq_none_iff.mp found v inside)
  | some w =>
    obtain ⟨other, sameOther⟩ := indexOf?_spec found
    rw [valid.eq_of_key_eq other inside (sameOther.trans same.symm)]

theorem WellFormed.indexOf?_label (valid : g.WellFormed) (inside : v < g.size) :
    g.indexOf? (g.label v) = some v :=
  valid.indexOf?_eq_some_iff.mpr ⟨inside, rfl⟩

end Graph

end SteinerTrees
