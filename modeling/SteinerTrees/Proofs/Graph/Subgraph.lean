import SteinerTrees.Proofs.Graph.Hops
import SteinerTrees.Proofs.Graph.WellFormed
import Mathlib.Combinatorics.SimpleGraph.Acyclic
import Mathlib.Combinatorics.SimpleGraph.Connectivity.Subgraph

/-! # Connected subgraphs

A graph as a simple graph on the indices of its vertices. A connected subgraph that holds some vertices is as
good as a set of edges that joins them, and walks along neighbours are walks along edges. -/

namespace SteinerTrees.Graph

variable {g : Graph} {edges : Edges} {vertices : Set Nat} {u v : Nat}

/-- The links as the edges of a simple graph. -/
def simple (g : Graph) : SimpleGraph Nat := SimpleGraph.fromEdgeSet g.edgeSet

/-- Some vertices and edges of a graph as a subgraph; an edge counts if its ends do. -/
def part (g : Graph) (vertices : Set Nat) (edges : Edges) : g.simple.Subgraph where
  verts := vertices
  Adj u v := s(u, v) ∈ edges ∧ g.simple.Adj u v ∧ u ∈ vertices ∧ v ∈ vertices
  adj_sub adjacent := adjacent.2.1
  edge_vert adjacent := adjacent.2.2.1
  symm := ⟨fun _ _ ⟨member, adjacent, first, second⟩ => ⟨Sym2.eq_swap ▸ member, adjacent.symm, second, first⟩⟩

/-- There is a connected subgraph with a number of edges that holds some vertices. -/
def Spans (g : Graph) (vertices : Set Nat) (size : Nat) : Prop :=
  ∃ part : g.simple.Subgraph, (∀ v ∈ part.verts, v < g.size) ∧ part.Preconnected ∧ vertices ⊆ part.verts ∧
    part.edgeSet.ncard = size

theorem simple_adj_iff : g.simple.Adj u v ↔ s(u, v) ∈ g.edgeSet ∧ u ≠ v := by
  rw [simple, SimpleGraph.fromEdgeSet_adj, Finset.mem_coe]

theorem simple_reachable_iff : g.simple.Reachable u v ↔ Joined g.edgeSet u v := by
  constructor
  · rw [SimpleGraph.reachable_iff_reflTransGen]
    exact Relation.ReflTransGen.mono (fun _ _ adjacent => (simple_adj_iff.mp adjacent).1) _ _
  · intro joined
    induction joined with
    | refl => exact .refl u
    | @tail a b _ edge ih =>
      by_cases loop : a = b
      · exact loop ▸ ih
      · exact ih.trans (simple_adj_iff.mpr ⟨edge, loop⟩).reachable

/-! ## Parts -/

theorem edgeSet_part_subset (g : Graph) (vertices : Set Nat) (edges : Edges) :
    (g.part vertices edges).edgeSet ⊆ edges := by
  intro edge
  induction edge with
  | _ u v => exact fun adjacent => adjacent.1

theorem edgeSet_part (subset : edges ⊆ g.edgeSet) (within : ∀ edge ∈ edges, ∀ v ∈ edge, v ∈ vertices)
    (loopless : ∀ edge ∈ edges, ¬ edge.IsDiag) : (g.part vertices edges).edgeSet = edges := by
  apply (edgeSet_part_subset g vertices edges).antisymm
  intro edge
  induction edge with
  | _ u v =>
    intro member
    refine ⟨member, simple_adj_iff.mpr ⟨subset member, loopless _ member⟩, ?_, ?_⟩
    · exact within _ member u (Sym2.mem_mk_left u v)
    · exact within _ member v (Sym2.mem_mk_right u v)

/-- Steps along edges that stay among the vertices stay in the part. -/
theorem part_reachable (subset : edges ⊆ g.edgeSet)
    (within : ∀ edge ∈ edges, ∀ v ∈ edge, v ∈ vertices) (joined : Joined edges u v) (start : u ∈ vertices) :
    ∃ stop : v ∈ vertices, (g.part vertices edges).coe.Reachable ⟨u, start⟩ ⟨v, stop⟩ := by
  induction joined with
  | refl => exact ⟨start, .refl _⟩
  | @tail a b _ edge ih =>
    obtain ⟨before, reached⟩ := ih
    by_cases loop : a = b
    · subst loop
      exact ⟨before, reached⟩
    · have stop := within _ edge b (Sym2.mem_mk_right a b)
      refine ⟨stop, reached.trans (SimpleGraph.Adj.reachable ?_)⟩
      exact ⟨edge, simple_adj_iff.mpr ⟨subset edge, loop⟩, before, stop⟩

theorem part_preconnected (subset : edges ⊆ g.edgeSet)
    (within : ∀ edge ∈ edges, ∀ v ∈ edge, v ∈ vertices)
    (joined : ∀ u ∈ vertices, ∀ v ∈ vertices, Joined edges u v) :
    (g.part vertices edges).Preconnected := by
  refine ⟨fun first second => ?_⟩
  exact (part_reachable subset within (joined first.1 first.2 second.1 second.2) first.2).2

/-- A connected part with one edge less than it has vertices is a tree. -/
theorem part_isTree (subset : edges ⊆ g.edgeSet) (loopless : ∀ edge ∈ edges, ¬ edge.IsDiag)
    {inside : Finset Nat} (spanning : IsSpanningTree edges inside) : (g.part inside edges).coe.IsTree := by
  have positive : 0 < inside.card := by rw [← spanning.count]; exact Nat.succ_pos _
  obtain ⟨root, member⟩ := Finset.card_pos.mp positive
  have finite : Finite (g.part inside edges).verts := inside.finite_toSet
  refine SimpleGraph.isTree_iff_connected_and_card.mpr ⟨?_, ?_⟩
  · have nonempty : Nonempty (g.part inside edges).verts := ⟨⟨root, member⟩⟩
    exact ⟨(part_preconnected subset spanning.within spanning.joins).coe⟩
  · have count : (g.part inside edges).coe.edgeSet.ncard = edges.card := by
      rw [← Set.ncard_image_of_injective _ (Sym2.map.injective Subtype.val_injective),
        SimpleGraph.Subgraph.image_coe_edgeSet_coe, edgeSet_part subset spanning.within loopless,
          Set.ncard_coe_finset]
    rw [Nat.card_coe_set_eq, Nat.card_coe_set_eq, count, spanning.count]
    exact (Set.ncard_coe_finset inside).symm

/-! ## Connected subgraphs and joining edges -/

/-- The edges of a connected subgraph join its vertices. -/
theorem joinsAll_of_preconnected {part : g.simple.Subgraph} (connected : part.Preconnected)
    (among : ∀ edge ∈ part.edgeSet, edge ∈ edges) : ∀ u ∈ part.verts, ∀ v ∈ part.verts, Joined edges u v := by
  intro u first v second
  have reached := connected.coe ⟨u, first⟩ ⟨v, second⟩
  rw [SimpleGraph.reachable_iff_reflTransGen] at reached
  have step : ∀ a b : part.verts, part.coe.Adj a b → s(a.1, b.1) ∈ edges :=
    fun a b adjacent => among _ (SimpleGraph.Subgraph.mem_edgeSet.mpr adjacent)
  exact Relation.ReflTransGen.lift Subtype.val step _ _ reached

/-- The edges of a subgraph are edges of the graph that are no loops. -/
theorem edgeSet_subset (part : g.simple.Subgraph) : part.edgeSet ⊆ {edge | edge ∈ g.edgeSet ∧ ¬ edge.IsDiag} := by
  refine part.edgeSet_subset.trans ?_
  rw [simple, SimpleGraph.edgeSet_fromEdgeSet]
  exact subset_rfl

theorem finite_edgeSet (part : g.simple.Subgraph) : part.edgeSet.Finite :=
  g.edgeSet.finite_toSet.subset fun _ member => (edgeSet_subset part member).1

/-- A connected subgraph is a set of edges that joins its vertices. -/
theorem exists_edges_of_preconnected {part : g.simple.Subgraph} (connected : part.Preconnected) :
    ∃ edges ⊆ g.edgeSet, edges.card = part.edgeSet.ncard ∧
    ∀ u ∈ part.verts, ∀ v ∈ part.verts, Joined edges u v := by
  have finite := finite_edgeSet part
  refine ⟨finite.toFinset, ?_, (Set.ncard_eq_toFinset_card _ finite).symm, ?_⟩
  · exact fun edge member => (edgeSet_subset part (finite.mem_toFinset.mp member)).1
  · exact joinsAll_of_preconnected connected fun edge member => finite.mem_toFinset.mpr member

theorem Spans.mono {more : Set Nat} {size : Nat} (spans : g.Spans more size) (subset : vertices ⊆ more) :
    g.Spans vertices size := by
  obtain ⟨part, known, connected, holds, count⟩ := spans
  exact ⟨part, known, connected, subset.trans holds, count⟩

/-- A connected subgraph that holds some vertices has a tree on all its vertices. -/
theorem Spans.exists_isTree {size : Nat} (spans : g.Spans vertices size) (nonempty : vertices.Nonempty) :
    ∃ part : g.simple.Subgraph, (∀ v ∈ part.verts, v < g.size) ∧ part.coe.IsTree ∧ vertices ⊆ part.verts ∧
      part.edgeSet.ncard ≤ size := by
  obtain ⟨part, known, connected, holds, rfl⟩ := spans
  obtain ⟨v, member⟩ := nonempty
  have ends : part.verts.Finite := (Set.finite_lt_nat g.size).subset known
  have finite := finite_edgeSet part
  have joins : JoinsAll finite.toFinset ends.toFinset := fun u first w second =>
    joinsAll_of_preconnected connected (fun edge member => finite.mem_toFinset.mpr member) u
      (ends.mem_toFinset.mp first) w (ends.mem_toFinset.mp second)
  have within : ∀ edge ∈ finite.toFinset, ∀ u ∈ edge, u ∈ ends.toFinset := fun edge member u endpoint =>
    ends.mem_toFinset.mpr (part.mem_verts_of_mem_edge (finite.mem_toFinset.mp member) endpoint)
  obtain ⟨tree, subset, spanning⟩ := joins.exists_spanning_tree ⟨v, ends.mem_toFinset.mpr (holds member)⟩ within
  have real : ∀ edge ∈ tree, edge ∈ g.edgeSet ∧ ¬ edge.IsDiag := fun edge member =>
    edgeSet_subset part (finite.mem_toFinset.mp (subset member))
  refine ⟨g.part ends.toFinset tree, ?_, ?_, ?_, ?_⟩
  · exact fun u member => known u (ends.mem_toFinset.mp member)
  · exact part_isTree (fun edge member => (real edge member).1) (fun edge member => (real edge member).2) spanning
  · exact fun u member => ends.mem_toFinset.mpr (holds member)
  · rw [edgeSet_part (fun edge member => (real edge member).1) spanning.within fun edge member => (real edge member).2,
      Set.ncard_coe_finset, Set.ncard_eq_toFinset_card _ finite]
    exact Finset.card_le_card subset

/-- The edges that a vertex can use make a connected subgraph of all that it is joined to. -/
theorem exists_spans_of_joined (valid : g.WellFormed) (subset : edges ⊆ g.edgeSet) (inside : v < g.size) :
    ∃ size ≤ edges.card, g.Spans {u | Joined edges v u} size := by
  classical
  have within : ∀ edge ∈ side edges v, ∀ u ∈ edge, u ∈ {u | Joined edges v u} := by
    intro edge
    induction edge with
    | _ a b =>
      intro member u endpoint
      obtain ⟨edge, near⟩ := Joined.mem_side_iff.mp member
      rcases Sym2.mem_iff.mp endpoint with rfl | rfl
      · exact near
      · exact near.tail edge
  have part : side edges v ⊆ edges := Finset.filter_subset _ _
  have count : (g.part {u | Joined edges v u} (side edges v)).edgeSet.ncard ≤ edges.card := by
    have fewer := Set.ncard_le_ncard (edgeSet_part_subset g {u | Joined edges v u} (side edges v))
      (Finset.finite_toSet _)
    rw [Set.ncard_coe_finset] at fewer
    exact fewer.trans (Finset.card_le_card part)
  refine ⟨_, count, g.part {u | Joined edges v u} (side edges v), ?_, ?_, subset_rfl, rfl⟩
  · intro u joined
    rcases Relation.ReflTransGen.cases_tail joined with rfl | ⟨w, -, edge⟩
    · exact inside
    · exact (valid.lt_size (subset edge)).2
  · apply part_preconnected (part.trans subset) within
    intro a first b second
    exact (Joined.side_joined first).symm.trans (Joined.side_joined second)

/-! ## Walks -/

open Hops

theorem WellFormed.bounded (valid : g.WellFormed) : Bounded g.adjacency := by
  intro u v neighbor
  rw [adjacency_size]
  exact (valid.lt_size (valid.mem_adjacency_iff.mp neighbor)).2

/-- A walk uses at most as many edges as it has steps. -/
theorem WellFormed.exists_edges_of_walk (valid : g.WellFormed) {steps : Nat}
    (walk : Walk g.adjacency u steps v) :
    ∃ edges ⊆ g.edgeSet, edges.card ≤ steps ∧ Joined edges u v := by
  induction walk with
  | start => exact ⟨∅, Finset.empty_subset _, le_rfl, .refl _ u⟩
  | @step steps a b _ neighbor ih =>
    obtain ⟨edges, subset, count, joined⟩ := ih
    refine ⟨insert s(a, b) edges, Finset.insert_subset (valid.mem_adjacency_iff.mp neighbor) subset, ?_, ?_⟩
    · have grown := Finset.card_insert_le s(a, b) edges
      omega
    · exact (joined.mono (Finset.subset_insert _ _)).tail (Finset.mem_insert_self _ _)

theorem WellFormed.joined_iff (valid : g.WellFormed) :
    Joined g.edgeSet u v ↔ Relation.ReflTransGen (fun a b => b ∈ g.adjacency.getD a []) u v := by
  simp only [valid.mem_adjacency_iff]
  rfl

/-- A search visits what its source is joined to. -/
theorem WellFormed.exists_visit_iff (valid : g.WellFormed) (inside : u < g.size) :
    (∃ visit, visit? (explore g.adjacency u) v = some visit) ↔ Joined g.edgeSet u v := by
  rw [valid.joined_iff]
  exact Hops.exists_visit_iff valid.bounded (g.adjacency_size ▸ inside)

/-- A graph with vertices is connected if its first vertex is joined to all. -/
theorem WellFormed.isConnected_iff (valid : g.WellFormed) (nonempty : 0 < g.size) :
    Hops.isConnected g.adjacency = true ↔ ∀ v < g.size, Joined g.edgeSet 0 v := by
  rw [Hops.isConnected_iff valid.bounded (g.adjacency_size ▸ nonempty), g.adjacency_size]
  simp only [valid.joined_iff]

end SteinerTrees.Graph
