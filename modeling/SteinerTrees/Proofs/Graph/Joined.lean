import SteinerTrees.Graph.Basic
import Mathlib.Data.Finset.Card
import Mathlib.Data.Finset.Sym
import Mathlib.Logic.Relation

/-! # Vertices joined by edges

Edges are unordered pairs of vertices. A set of edges joins two vertices if steps along its members lead
from one to the other. Taking out one edge leaves two sides, each of which joins what it joined before, and
a set that joins all of some vertices holds a spanning tree of them. -/

namespace SteinerTrees

abbrev Edges := Finset (Sym2 Nat)

/-- Steps along edges lead from the first vertex to the second. -/
def Joined (edges : Edges) : Nat → Nat → Prop := Relation.ReflTransGen fun u v => s(u, v) ∈ edges

namespace Joined

variable {edges more : Edges} {u v w : Nat}

theorem refl (edges : Edges) (v : Nat) : Joined edges v v := Relation.ReflTransGen.refl

theorem single (edge : s(u, v) ∈ edges) : Joined edges u v := Relation.ReflTransGen.single edge

theorem trans (first : Joined edges u v) (second : Joined edges v w) : Joined edges u w :=
  Relation.ReflTransGen.trans first second

theorem tail (first : Joined edges u v) (edge : s(v, w) ∈ edges) : Joined edges u w :=
  Relation.ReflTransGen.tail first edge

theorem symm (joined : Joined edges u v) : Joined edges v u := by
  induction joined with
  | refl => exact .refl edges u
  | tail _ edge ih => exact (single (Sym2.eq_swap ▸ edge)).trans ih

theorem mono (joined : Joined edges u v) (subset : edges ⊆ more) : Joined more u v :=
  Relation.ReflTransGen.mono (fun _ _ edge => subset edge) _ _ joined

/-- A vertex that is joined to another one is the end of an edge. -/
theorem exists_edge (joined : Joined edges u v) (differ : u ≠ v) : ∃ w, s(u, w) ∈ edges := by
  rcases Relation.ReflTransGen.cases_head joined with same | ⟨w, edge, _⟩
  · exact absurd same differ
  · exact ⟨w, edge⟩

/-- Leaving a set of vertices takes an edge across its border. -/
theorem exists_crossing (joined : Joined edges u v) {inside : Finset Nat} (start : u ∈ inside)
    (stop : v ∉ inside) :
    ∃ a ∈ inside, ∃ b ∉ inside, s(a, b) ∈ edges := by
  induction joined with
  | refl => exact absurd start stop
  | @tail a b _ edge ih =>
    by_cases inner : a ∈ inside
    · exact ⟨a, inner, b, stop, edge⟩
    · exact ih inner

end Joined

/-! ## The sides of an edge -/

open scoped Classical in
/-- The edges that steps from a vertex can take. -/
noncomputable def side (edges : Edges) (v : Nat) : Edges :=
  edges.filter fun edge => ∃ u ∈ edge, Joined edges v u

namespace Joined

variable {edges : Edges} {u v w : Nat}

theorem mem_side_iff : s(u, w) ∈ side edges v ↔ s(u, w) ∈ edges ∧ Joined edges v u := by
  simp only [side, Finset.mem_filter, Sym2.mem_iff, exists_eq_or_imp, exists_eq_left]
  constructor
  · rintro ⟨edge, near | far⟩
    · exact ⟨edge, near⟩
    · exact ⟨edge, far.tail (Sym2.eq_swap ▸ edge)⟩
  · rintro ⟨edge, near⟩
    exact ⟨edge, .inl near⟩

theorem side_joined (joined : Joined edges v w) : Joined (side edges v) v w := by
  induction joined with
  | refl => exact .refl _ v
  | tail before edge ih => exact ih.tail (mem_side_iff.mpr ⟨edge, before⟩)

/-- What a vertex is not joined to stays joined without the vertex's side. -/
theorem sdiff_side_joined (joined : Joined edges u w) (apart : ¬ Joined edges v u) :
    Joined (edges \ side edges v) u w := by
  induction joined with
  | refl => exact .refl _ u
  | @tail a b before edge ih =>
    refine ih.tail (Finset.mem_sdiff.mpr ⟨edge, ?_⟩)
    intro taken
    exact apart ((mem_side_iff.mp taken).2.trans (symm before))

/-- Without one edge at a vertex, what the vertex was joined to is joined to one of the edge's ends. -/
theorem erase_joined (joined : Joined edges v w) (u : Nat) :
    Joined (edges.erase s(v, u)) v w ∨ Joined (edges.erase s(v, u)) u w := by
  induction joined with
  | refl => exact .inl (.refl _ v)
  | @tail a b _ edge ih =>
    by_cases same : s(a, b) = s(v, u)
    · rcases Sym2.eq_iff.mp same with ⟨-, rfl⟩ | ⟨-, rfl⟩
      · exact .inr (.refl _ b)
      · exact .inl (.refl _ b)
    · have kept : s(a, b) ∈ edges.erase s(v, u) := Finset.mem_erase.mpr ⟨same, edge⟩
      exact ih.imp (·.tail kept) (·.tail kept)

/-- Without one edge at a vertex there are two disjoint sides, and together with the edge they are at most as
many edges as before. What the vertex was joined to is joined to it on its own side, or joined to the other
end of the edge on the other side. -/
theorem exists_sides (edge : s(v, u) ∈ edges) :
    ∃ near far : Edges, near ⊆ edges ∧ far ⊆ edges ∧ near.card + far.card + 1 = edges.card ∧
      ∀ w, Joined edges v w → Joined near v w ∨ Joined far u w := by
  set rest := edges.erase s(v, u)
  have within : rest ⊆ edges := Finset.erase_subset _ _
  have part : side rest v ⊆ rest := by
    classical
    exact Finset.filter_subset _ _
  refine ⟨side rest v, rest \ side rest v, part.trans within, Finset.sdiff_subset.trans within, ?_, ?_⟩
  · have sides := Finset.card_sdiff_add_card_eq_card part
    have whole : rest.card + 1 = edges.card := Finset.card_erase_add_one edge
    omega
  · intro w joined
    by_cases near : Joined rest v w
    · exact .inl near.side_joined
    · have far := (joined.erase_joined u).resolve_left near
      exact .inr (far.sdiff_side_joined fun other => near (other.trans far))

end Joined

/-! ## Spanning trees -/

/-- All of some vertices are joined to each other. -/
def JoinsAll (edges : Edges) (vertices : Finset Nat) : Prop :=
  ∀ u ∈ vertices, ∀ v ∈ vertices, Joined edges u v

/-- Edges that join all of some vertices, have their ends there, and are one fewer than the vertices. -/
structure IsSpanningTree (tree : Edges) (vertices : Finset Nat) : Prop where
  joins : JoinsAll tree vertices
  within : ∀ edge ∈ tree, ∀ v ∈ edge, v ∈ vertices
  count : tree.card + 1 = vertices.card

namespace IsSpanningTree

variable {tree : Edges} {vertices : Finset Nat} {a b : Nat}

theorem singleton (root : Nat) : IsSpanningTree ∅ {root} where
  joins u first v second := by
    rw [Finset.mem_singleton.mp first, Finset.mem_singleton.mp second]
    exact .refl ∅ root
  within edge member := absurd member (Finset.notMem_empty edge)
  count := rfl

/-- An edge to a new vertex makes a larger spanning tree. -/
theorem insert (spanning : IsSpanningTree tree vertices) (near : a ∈ vertices) (far : b ∉ vertices) :
    IsSpanningTree (insert s(a, b) tree) (insert b vertices) where
  joins := by
    have linked : ∀ v ∈ Insert.insert b vertices, Joined (Insert.insert s(a, b) tree) a v := by
      intro v member
      rcases Finset.mem_insert.mp member with rfl | member
      · exact .single (Finset.mem_insert_self _ tree)
      · exact (spanning.joins a near v member).mono (Finset.subset_insert _ tree)
    exact fun u first v second => (linked u first).symm.trans (linked v second)
  within edge member v endpoint := by
    rcases Finset.mem_insert.mp member with rfl | member
    · rcases Sym2.mem_iff.mp endpoint with rfl | rfl
      · exact Finset.mem_insert_of_mem near
      · exact Finset.mem_insert_self _ vertices
    · exact Finset.mem_insert_of_mem (spanning.within edge member v endpoint)
  count := by
    have fresh : s(a, b) ∉ tree := fun old => far (spanning.within _ old b (Sym2.mem_mk_right a b))
    rw [Finset.card_insert_of_notMem fresh, Finset.card_insert_of_notMem far, spanning.count]

end IsSpanningTree

namespace JoinsAll

variable {edges : Edges} {vertices : Finset Nat}

/-- A spanning tree of some vertices grows, edge by edge across its border, until it holds them all. -/
private theorem grow (joined : JoinsAll edges vertices) (within : ∀ edge ∈ edges, ∀ v ∈ edge, v ∈ vertices)
    (missing : Nat) : ∀ {tree : Edges} {inside : Finset Nat}, tree ⊆ edges → inside ⊆ vertices →
    inside.Nonempty →
      IsSpanningTree tree inside → inside.card + missing = vertices.card →
      ∃ tree ⊆ edges, IsSpanningTree tree vertices := by
  induction missing with
  | zero =>
    intro tree inside used subset _ spanning count
    exact ⟨tree, used, Finset.eq_of_subset_of_card_le subset count.ge ▸ spanning⟩
  | succ missing ih =>
    intro tree inside used subset nonempty spanning count
    obtain ⟨root, start⟩ := nonempty
    obtain ⟨outer, member, outside⟩ : ∃ v ∈ vertices, v ∉ inside :=
      Finset.exists_mem_notMem_of_card_lt_card (by omega)
    obtain ⟨a, near, b, far, edge⟩ := (joined root (subset start) outer member).exists_crossing start outside
    have reached : b ∈ vertices := within _ edge b (Sym2.mem_mk_right a b)
    refine ih (Finset.insert_subset edge used)
      (Finset.insert_subset reached subset) ⟨b, Finset.mem_insert_self b _⟩
      (spanning.insert near far) ?_
    rw [Finset.card_insert_of_notMem far]
    omega

/-- Edges that join all of some vertices, and have their ends there, hold a spanning tree. -/
theorem exists_spanning_tree (joined : JoinsAll edges vertices) (nonempty : vertices.Nonempty)
    (within : ∀ edge ∈ edges, ∀ v ∈ edge, v ∈ vertices) : ∃ tree ⊆ edges, IsSpanningTree tree vertices := by
  obtain ⟨root, member⟩ := nonempty
  have positive : 0 < vertices.card := Finset.card_pos.mpr ⟨root, member⟩
  exact grow joined within (vertices.card - 1) (Finset.empty_subset edges)
    (Finset.singleton_subset_iff.mpr member)
    (Finset.singleton_nonempty root) (.singleton root) (by rw [Finset.card_singleton]; omega)

end JoinsAll

end SteinerTrees
