import SteinerTrees.Proofs.Graph.Built
import SteinerTrees.Proofs.Graph.Subgraph
import SteinerTrees.Proofs.Solver.Certificate

/-! # Costs of a filled table

A known cost is the number of edges of a tree, so no cost is too low. In the other direction, edges that join
a vertex to a set of terminals are cut at one edge of the vertex: either all terminals are on one side, or the
set splits into the terminals on each side. By induction on the number of edges no cost is too high if rows
are relaxed. -/

namespace SteinerTrees

open Table

variable {g : Graph} {relaxation : Bool} {terminals : List Nat} {t : Table} {edges near far : Edges}
  {mask sub u v w i : Nat} {c : Int}

/-- Edges join a vertex to all terminals of a set. -/
def Connects (edges : Edges) (terminals : List Nat) (mask v : Nat) : Prop :=
  ∀ u ∈ members terminals mask, Joined edges v u

theorem Connects.of_subset {more : Edges} (connects : Connects edges terminals mask v)
    (subset : edges ⊆ more) :
    Connects more terminals mask v := fun u member => (connects u member).mono subset

theorem Connects.part (connects : Connects edges terminals mask v) (within : Within sub mask) :
    Connects edges terminals sub v := fun u member => connects u (members_mono within member)

/-- What joins a part and what joins the rest, together, join the set. -/
theorem Connects.union (first : Connects near terminals sub v)
    (second : Connects far terminals (mask ^^^ sub) v) :
    Connects (near ∪ far) terminals mask v := by
  intro u member
  rcases mem_members_or_rest member sub with part | rest
  · exact (first u part).mono Finset.subset_union_left
  · exact (second u rest).mono Finset.subset_union_right

theorem Connects.step (connects : Connects edges terminals mask u) (v : Nat) :
    Connects (insert s(v, u) edges) terminals mask v := by
  intro w member
  exact (Joined.single (Finset.mem_insert_self _ _)).trans
    ((connects w member).mono (Finset.subset_insert _ _))

namespace Table

/-- The cost of a set and a vertex. -/
abbrev cost (t : Table) (g : Graph) (mask v : Nat) : Option Int := (t.entry g.adjacency.size mask v).cost

namespace FilledTo

/-! ## No cost is too low -/

/-- A known cost is enough for edges that join the vertex to the set. -/
theorem exists_edges (filled : t.Filled relaxation g.adjacency terminals) (valid : g.WellFormed)
    (known : ∀ terminal ∈ terminals, terminal < g.size) (below : mask < 2 ^ terminals.length)
    (inside : v < g.size) (cost : t.cost g mask v = some c) :
    ∃ edges ⊆ g.edgeSet, (edges.card : Int) ≤ c ∧ Connects edges terminals mask v := by
  refine filled.induction (P := fun mask v c => ∃ edges ⊆ g.edgeSet, (edges.card : Int) ≤ c ∧
    Connects edges terminals mask v)
    ?direct ?merge ?move below (g.adjacency_size ▸ inside) cost
  case direct =>
    intro i terminal v visit found inside reached taken
    have source : terminal < g.adjacency.size :=
      g.adjacency_size ▸ known terminal (List.mem_of_getElem? found)
    obtain ⟨edges, subset, count, joined⟩ :=
      valid.exists_edges_of_walk (Hops.walk_of_visit valid.bounded source reached)
    refine ⟨edges, subset, Int.ofNat_le.mpr count, ?_⟩
    intro u member
    rw [mem_members_two_pow, found] at member
    cases member
    exact joined.symm
  case merge =>
    rintro mask sub v a b - - - - ⟨near, nearSubset, nearCount, first⟩ ⟨far, farSubset, farCount, second⟩
    refine ⟨near ∪ far, Finset.union_subset nearSubset farSubset, ?_, first.union second⟩
    have count := Finset.card_union_le near far
    omega
  case move =>
    rintro mask u v c - - - neighbor - - ⟨edges, subset, count, connects⟩
    have edge : s(v, u) ∈ g.edgeSet := Sym2.eq_swap ▸ valid.mem_adjacency_iff.mp neighbor
    refine ⟨insert s(v, u) edges, Finset.insert_subset edge subset, ?_, connects.step v⟩
    have grown := Finset.card_insert_le s(v, u) edges
    omega

/-! ## What is known -/

/-- The cost of one terminal is its distance. -/
theorem cost_two_pow (filled : t.Filled relaxation g.adjacency terminals) (listed : i < terminals.length)
    (inside : v < g.adjacency.size) :
    t.cost g (2 ^ i) v =
      (Hops.visit? (Hops.explore g.adjacency terminals[i]) v).map fun visit => (visit.hops : Int) := by
  rw [cost, filled.seeds i _ (List.getElem?_eq_getElem listed) v inside, getD_seedRow inside]
  cases Hops.visit? (Hops.explore g.adjacency terminals[i]) v with
  | none => rfl
  | some visit => rfl

/-- A vertex that can reach all terminals of a set has a cost, relaxed or not, which is not above that of a path
to each terminal. -/
theorem atMost_paths (filled : t.Filled relaxation g.adjacency terminals) (valid : g.WellFormed)
    (known : ∀ terminal ∈ terminals, terminal < g.size) (nonempty : mask ≠ 0)
    (below : mask < 2 ^ terminals.length)
    (inside : v < g.size) (connects : Connects g.edgeSet terminals mask v) :
    AtMost (mask * g.adjacency.size : Nat) (t.cost g mask v) := by
  have inner : v < g.adjacency.size := g.adjacency_size ▸ inside
  revert connects
  refine parts_induction (P := fun mask => Connects g.edgeSet terminals mask v →
    AtMost (mask * g.adjacency.size : Nat) (t.cost g mask v)) ?single ?union nonempty below
  case single =>
    intro i listed connects
    have joined := connects terminals[i] (mem_members_two_pow.mpr (List.getElem?_eq_getElem listed))
    have source : terminals[i] < g.size := known _ (List.getElem_mem listed)
    obtain ⟨visit, reached⟩ := (valid.exists_visit_iff source).mpr joined.symm
    have short := Hops.hops_lt_size valid.bounded (g.adjacency_size ▸ source) reached
    have single : g.adjacency.size ≤ 2 ^ i * g.adjacency.size :=
      Nat.le_mul_of_pos_left _ (Nat.two_pow_pos i)
    rw [filled.cost_two_pow listed inner, reached]
    exact atMost_some_iff.mpr (Int.ofNat_le.mpr (by omega))
  case union =>
    intro mask sub below part first second connects
    obtain ⟨a, one, nearer⟩ := first (connects.part part.within)
    obtain ⟨b, other, farther⟩ := second (connects.part part.rest.within)
    have total : mask * g.adjacency.size = sub * g.adjacency.size + (mask ^^^ sub) * g.adjacency.size := by
      rw [← Nat.add_mul, part.within.add_xor]
    exact (filled.merged mask below v inner sub part a b ⟨one, other⟩).mono (by omega)

/-- A cost is known exactly for the vertices that can reach all terminals of a set. -/
theorem exists_cost_iff (filled : t.Filled relaxation g.adjacency terminals) (valid : g.WellFormed)
    (known : ∀ terminal ∈ terminals, terminal < g.size) (nonempty : mask ≠ 0)
    (below : mask < 2 ^ terminals.length)
    (inside : v < g.size) : (∃ c, t.cost g mask v = some c) ↔ Connects g.edgeSet terminals mask v := by
  constructor
  · rintro ⟨c, cost⟩
    obtain ⟨edges, subset, -, connects⟩ := filled.exists_edges valid known below inside cost
    exact connects.of_subset subset
  · intro connects
    obtain ⟨c, cost, -⟩ := filled.atMost_paths valid known nonempty below inside connects
    exact ⟨c, cost⟩

/-! ## No cost is too high -/

/-- A neighbour costs at most one edge more. -/
theorem atMost_neighbor (filled : t.Filled true g.adjacency terminals) (valid : g.WellFormed)
    (known : ∀ terminal ∈ terminals, terminal < g.size) (nonempty : mask ≠ 0)
    (below : mask < 2 ^ terminals.length)
    (edge : s(v, u) ∈ g.edgeSet) {bound : Int} (cheap : AtMost bound (t.cost g mask u)) :
    AtMost (bound + 1) (t.cost g mask v) := by
  obtain ⟨inside, inner⟩ := valid.lt_size edge
  rw [← g.adjacency_size] at inside inner
  have neighbor : v ∈ g.adjacency.getD u [] := valid.mem_adjacency_iff.mpr (Sym2.eq_swap ▸ edge)
  obtain ⟨c, cost, le⟩ := cheap
  by_cases single : isSingle mask = true
  · obtain ⟨i, rfl⟩ := exists_eq_two_pow single nonempty
    have listed : i < terminals.length := (Nat.pow_lt_pow_iff_right (by omega)).mp below
    have source : terminals[i] < g.adjacency.size := g.adjacency_size ▸ known _ (List.getElem_mem listed)
    rw [filled.cost_two_pow listed inner, Option.map_eq_some_iff] at cost
    obtain ⟨visit, reached, rfl⟩ := cost
    obtain ⟨next, visited, near⟩ := (Hops.explore_spec valid.bounded source).2.2 u visit reached v neighbor
    rw [filled.cost_two_pow listed inside, visited]
    exact atMost_some_iff.mpr (show (next.hops : Int) ≤ bound + 1 by omega)
  · exact (filled.moved rfl mask below single u inner c cost v neighbor inside).mono (by omega)

/-- No edge is needed where all terminals of a set are the vertex itself. -/
theorem atMost_zero (filled : t.Filled relaxation g.adjacency terminals) (valid : g.WellFormed)
    (nonempty : mask ≠ 0)
    (below : mask < 2 ^ terminals.length) (inside : v < g.size) (here : ∀ u ∈ members terminals mask, u = v) :
    AtMost 0 (t.cost g mask v) := by
  have inner : v < g.adjacency.size := g.adjacency_size ▸ inside
  revert here
  refine parts_induction (P := fun mask => (∀ u ∈ members terminals mask, u = v) → AtMost 0 (t.cost g mask v))
    ?single ?union nonempty below
  case single =>
    intro i listed here
    have same : terminals[i] = v := here _ (mem_members_two_pow.mpr (List.getElem?_eq_getElem listed))
    rw [filled.cost_two_pow listed inner, same, (Hops.explore_spec valid.bounded inner).1]
    exact atMost_some_iff.mpr le_rfl
  case union =>
    intro mask sub below part first second here
    obtain ⟨a, one, nearer⟩ := first fun u member => here u (members_mono part.within member)
    obtain ⟨b, other, farther⟩ := second fun u member => here u (members_mono part.rest.within member)
    exact (filled.merged mask below v inner sub part a b ⟨one, other⟩).mono (by omega)

/-- In a relaxed table no cost is above the number of edges that join a vertex to a set. -/
theorem atMost_card (filled : t.Filled true g.adjacency terminals) (valid : g.WellFormed)
    (known : ∀ terminal ∈ terminals, terminal < g.size) (nonempty : mask ≠ 0)
    (below : mask < 2 ^ terminals.length)
    (inside : v < g.size) (subset : edges ⊆ g.edgeSet) (connects : Connects edges terminals mask v) :
    AtMost edges.card (t.cost g mask v) := by
  induction size : edges.card using Nat.strongRecOn generalizing edges mask v with
  | _ size fewer =>
    subst size
    by_cases ends : ∃ u, s(v, u) ∈ edges
    · obtain ⟨u, edge⟩ := ends
      obtain ⟨near, far, nearSubset, farSubset, count, sides⟩ := Joined.exists_sides edge
      obtain ⟨sub, within, nearby, away⟩ := exists_selection terminals mask (Joined near v)
      have inner : u < g.size := (valid.lt_size (subset edge)).2
      have beyond : Connects far terminals (mask ^^^ sub) u := by
        intro w member
        have whole := members_mono (within_rest within) member
        exact (sides w (connects w whole)).resolve_left (away w member)
      have across : ∀ {rest : Nat}, rest ≠ 0 → rest < 2 ^ terminals.length → Connects far terminals rest u →
          AtMost (far.card + 1) (t.cost g rest v) := fun some below joined =>
        filled.atMost_neighbor valid known some below (subset edge)
          (fewer far.card (by omega) some below inner (farSubset.trans subset) joined rfl)
      -- All terminals are on one side of the edge, or there are some on each.
      by_cases all : sub = mask
      · subst all
        exact (fewer near.card (by omega) nonempty below inside (nearSubset.trans subset) nearby rfl).mono
          (by omega)
      by_cases none : sub = 0
      · subst none
        rw [Nat.xor_zero] at beyond
        exact (across nonempty below beyond).mono (by omega)
      have part : IsPart mask sub := ⟨none, all, within⟩
      obtain ⟨a, first, nearer⟩ := fewer near.card (by omega) part.nonempty (part.lt_two_pow below) inside
        (nearSubset.trans subset) nearby rfl
      obtain ⟨b, second, farther⟩ := across part.rest.nonempty (part.rest.lt_two_pow below) beyond
      have inRow : v < g.adjacency.size := g.adjacency_size ▸ inside
      exact (filled.merged mask below v inRow sub part a b ⟨first, second⟩).mono (by omega)
    · push Not at ends
      refine (filled.atMost_zero valid nonempty below inside ?_).mono (Int.natCast_nonneg _)
      intro u member
      by_contra differ
      obtain ⟨w, edge⟩ := (connects u member).exists_edge (Ne.symm differ)
      exact ends w edge

end FilledTo

end Table

/-! ## Exact cells -/

/-- Connected subgraphs that hold a vertex and a set of terminals give edges that join them. -/
theorem Graph.Spans.exists_connects {size : Nat} (spans : g.Spans (insert v (members terminals mask)) size) :
    ∃ edges ⊆ g.edgeSet, edges.card = size ∧ Connects edges terminals mask v := by
  obtain ⟨part, -, connected, inside, count⟩ := spans
  obtain ⟨edges, subset, same, joined⟩ := exists_edges_of_preconnected connected
  refine ⟨edges, subset, same.trans count, ?_⟩
  exact fun u member => joined v (inside (Set.mem_insert v _)) u (inside (Set.mem_insert_of_mem v member))

/-- Edges that join a vertex to a set of terminals give a connected subgraph that holds them. -/
theorem Connects.exists_spans (connects : Connects edges terminals mask v) (valid : g.WellFormed)
    (subset : edges ⊆ g.edgeSet) (inside : v < g.size) :
    ∃ size ≤ edges.card, g.Spans (insert v (members terminals mask)) size := by
  obtain ⟨size, le, part, within, connected, holds, count⟩ := Graph.exists_spans_of_joined valid subset inside
  refine ⟨size, le, part, within, connected, (Set.insert_subset ?_ connects).trans holds, count⟩
  exact Joined.refl edges v

/-- Every cell of the finished table is exact. For a set of terminals that is not empty the cost is the least
number of edges of a connected subgraph that holds the set and the vertex, and there is no cost exactly where
there is no such subgraph. The row of the empty set stays as it was. -/
theorem Graph.cell_exact (built : g.Built) (known : ∀ terminal ∈ terminals, terminal < g.size) :
    (∀ mask, mask ≠ 0 → mask < 2 ^ terminals.length → ∀ v < g.size,
      (∀ c, ((g.costTable true terminals).cell (mask * g.size + v)).cost = some c ↔
        ∃ size : Nat, c = size ∧ IsLeast {k | g.Spans (insert v (members terminals mask)) k} size) ∧
      (((g.costTable true terminals).cell (mask * g.size + v)).cost = none ↔
        ∀ size, ¬ g.Spans (insert v (members terminals mask)) size)) ∧
    ∀ v < g.size, (g.costTable true terminals).cell v = (blank terminals.length g.size).cell v := by
  have valid := built.wellFormed
  have filled := g.filled_costTable true terminals
  generalize g.costTable true terminals = t at filled ⊢
  constructor
  · intro mask nonempty below v inside
    have sound : ∀ c, (t.cell (mask * g.size + v)).cost = some c →
        ∃ size : Nat, (size : Int) ≤ c ∧ g.Spans (insert v (members terminals mask)) size := by
      intro c cost
      rw [← g.adjacency_size] at cost
      obtain ⟨edges, subset, count, connects⟩ := filled.exists_edges valid known below inside cost
      obtain ⟨size, le, spans⟩ := connects.exists_spans valid subset inside
      exact ⟨size, by omega, spans⟩
    have complete : ∀ size : Nat, g.Spans (insert v (members terminals mask)) size →
        AtMost size (t.cell (mask * g.size + v)).cost := by
      intro size spans
      obtain ⟨edges, subset, rfl, connects⟩ := spans.exists_connects
      rw [← g.adjacency_size]
      exact filled.atMost_card valid known nonempty below inside subset connects
    have least : ∀ c, (t.cell (mask * g.size + v)).cost = some c →
        ∃ size : Nat, c = size ∧ IsLeast {k | g.Spans (insert v (members terminals mask)) k} size := by
      intro c cost
      obtain ⟨size, le, spans⟩ := sound c cost
      have above : ∀ k : Nat, g.Spans (insert v (members terminals mask)) k → c ≤ k := fun k other =>
        atMost_some_iff.mp (cost ▸ complete k other)
      have same : c = size := le_antisymm (above size spans) le
      refine ⟨size, same, spans, ?_⟩
      intro k other
      have := above k other
      omega
    refine ⟨fun c => ⟨least c, ?_⟩, ?_⟩
    · rintro ⟨size, rfl, minimal⟩
      obtain ⟨c, cost, -⟩ := complete size minimal.1
      obtain ⟨other, rfl, otherMinimal⟩ := least c cost
      rw [cost, minimal.unique otherMinimal]
    · constructor
      · intro unknown size spans
        obtain ⟨c, cost, -⟩ := complete size spans
        rw [unknown] at cost
        cases cost
      · intro apart
        cases cost : (t.cell (mask * g.size + v)).cost with
        | none => rfl
        | some c =>
          obtain ⟨size, -, spans⟩ := sound c cost
          exact absurd spans (apart size)
  · intro v inside
    have empty := filled.zero v (g.adjacency_size ▸ inside)
    rw [entry, Nat.zero_mul, Nat.zero_add] at empty
    rw [empty, cell_blank]

/-- All four terminals cost six edges from the vertex in front of the bridge. -/
theorem Graph.cell_exact_bridged : (∀ terminal ∈ [3, 4, 5, 6], terminal < bridged.size) ∧
    IsLeast {k | bridged.Spans (insert 0 (members [3, 4, 5, 6] 15)) k} 6 := by
  have known : ∀ terminal ∈ [3, 4, 5, 6], terminal < bridged.size := by decide +kernel
  have cells := (cell_exact built_bridged known).1 15 (by decide) (by decide) 0 (by decide +kernel)
  obtain ⟨size, same, least⟩ := (cells.1 6).mp (by decide +kernel)
  obtain rfl : size = 6 := by omega
  exact ⟨known, least⟩

end SteinerTrees
