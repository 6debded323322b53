import SteinerTrees.Proofs.Lists
import SteinerTrees.Proofs.Solver.Trail

/-! # Trees read off a table

The tree of a known cell keeps the first use of every link. It joins its vertices, has its terminals among
them, and has at most as many links as the cell costs. Reading it never fails. -/

namespace SteinerTrees

variable {g : Graph} {relaxation : Bool} {terminals : List Nat} {t : Table} {links kept : List Link}
  {vertices : List Nat} {mask v : Nat} {c : Int}

/-! ## First uses -/

namespace Trail

/-- Dropping repeated links keeps every pair once. -/
theorem exists_distinctSteps (links : List Link) : ∃ kept :
    List Link, distinctSteps (links.map some) = kept.map some ∧
    kept.Sublist links ∧ (kept.map Link.pair).Nodup ∧ ∀ link ∈ links, link.pair ∈ kept.map Link.pair := by
  induction links with
  | nil => exact ⟨[], rfl, .slnil, List.nodup_nil, fun _ member => absurd member List.not_mem_nil⟩
  | cons link rest ih =>
    obtain ⟨kept, same, sublist, distinct, complete⟩ := ih
    have joins : ∀ other : Link, other.joins link.source link.target = true ↔ other.pair = link.pair :=
      fun _ => Link.joins_iff
    refine ⟨link :: kept.filter (fun other => !other.joins link.source link.target), ?_, ?_, ?_, ?_⟩
    · rw [List.map_cons, distinctSteps, same, List.filter_map, List.map_cons]
      rfl
    · exact (List.filter_sublist.trans sublist).cons_cons link
    · rw [List.map_cons, List.nodup_cons]
      refine ⟨?_, distinct.sublist (List.filter_sublist.map _)⟩
      intro again
      obtain ⟨other, member, pair⟩ := List.mem_map.mp again
      have dropped := (List.mem_filter.mp member).2
      rw [(joins other).mpr pair] at dropped
      cases dropped
    · intro other member
      rw [List.map_cons, List.mem_cons]
      by_cases pair : other.pair = link.pair
      · exact .inl pair
      · rcases List.mem_cons.mp member with rfl | member
        · exact .inl rfl
        · obtain ⟨first, among, equal⟩ := List.mem_map.mp (complete other member)
          refine .inr (List.mem_map.mpr ⟨first, List.mem_filter.mpr ⟨among, ?_⟩, equal⟩)
          rw [Bool.not_eq_true', Bool.eq_false_iff]
          exact fun joined => pair (equal.symm.trans ((joins first).mp joined))

end Trail

/-- A branch needs each pair only once. -/
theorem Branch.of_distinct (branch : Branch g v vertices links) (subset : kept ⊆ links)
    (complete : ∀ link ∈ links, link.pair ∈ kept.map Link.pair) : Branch g v vertices kept where
  rooted := branch.rooted
  known := branch.known
  used link member := branch.used link (subset member)
  ends link member := branch.ends link (subset member)
  loopless link member := branch.loopless link (subset member)
  joins u member := by
    apply (branch.joins u member).mono
    intro edge among
    obtain ⟨link, old, rfl⟩ := mem_edgesOf_iff.mp among
    exact List.mem_toFinset.mpr (complete link old)

/-! ## Listed subgraphs -/

theorem IsSpanningTree.length_eq (spanning : IsSpanningTree (edgesOf links) vertices.toFinset)
    (once : (links.map Link.pair).Nodup) (distinct : vertices.Nodup) : vertices.length = links.length + 1 := by
  rw [← card_edgesOf once, spanning.count, List.toFinset_card_of_nodup distinct]

/-- Links that are a spanning tree of some vertices make a tree of them. -/
theorem Graph.part_isTree_of_spanning (used : ∀ link ∈ links, link ∈ g.links.toList)
    (loopless : ∀ link ∈ links, link.source ≠ link.target)
    (spanning : IsSpanningTree (edgesOf links) vertices.toFinset) :
    (g.part {v | v ∈ vertices} (edgesOf links)).coe.IsTree := by
  have isTree := part_isTree (edgesOf_subset_edgeSet used) (edgesOf_loopless loopless) spanning
  rwa [List.coe_toFinset] at isTree

/-- Vertices and links of a graph, each listed once, that connect some wanted vertices. -/
structure Graph.IsConnector (g : Graph) (wanted : Set Nat) (tree : Tree) : Prop where
  known : ∀ v ∈ tree.vertices, v < g.size
  distinct : tree.vertices.Nodup
  used : ∀ link ∈ tree.links, link ∈ g.links.toList
  once : (tree.links.map Link.pair).Nodup
  loopless : ∀ link ∈ tree.links, link.source ≠ link.target
  ends : ∀ link ∈ tree.links, link.source ∈ tree.vertices ∧ link.target ∈ tree.vertices
  holds : wanted ⊆ {v | v ∈ tree.vertices}
  connected : (g.part {v | v ∈ tree.vertices} (edgesOf tree.links)).Preconnected

/-- The links of a connector join its vertices. -/
theorem Graph.IsConnector.joins {tree : Tree} {wanted : Set Nat} (connector : g.IsConnector wanted tree) :
    JoinsAll (edgesOf tree.links) tree.vertices.toFinset := by
  intro u first v second
  have joined := joinsAll_of_preconnected connector.connected (edgeSet_part_subset g _ _)
  exact joined u (List.mem_toFinset.mp first) v (List.mem_toFinset.mp second)

/-! ## The tree of a cell -/

/-- What the tree of a vertex and a set of terminals comes to. -/
structure Tree.Reads (tree : Tree) (g : Graph) (terminals : List Nat) (mask v : Nat) (c : Int) : Prop where
  listed : tree.terminals = terminals
  hub : tree.hub = some v
  branch : Branch g v tree.vertices tree.links
  ascending : tree.vertices.Sublist g.vertices
  distinct : (tree.links.map Link.pair).Nodup
  holds : ∀ u ∈ members terminals mask, u ∈ tree.vertices
  count : (tree.links.length : Int) ≤ c

/-- The tree of a vertex and a set of terminals connects them. -/
theorem Tree.Reads.isConnector {tree : Tree} (reads : tree.Reads g terminals mask v c) :
    g.IsConnector (insert v (members terminals mask)) tree where
  known := reads.branch.known
  distinct := reads.ascending.nodup List.nodup_range
  used := reads.branch.used
  once := reads.distinct
  loopless := reads.branch.loopless
  ends := reads.branch.ends
  holds := Set.insert_subset reads.branch.rooted reads.holds
  connected := by
    refine Graph.part_preconnected (edgesOf_subset_edgeSet reads.branch.used) ?_ ?_
    · exact fun edge member u endpoint => List.mem_toFinset.mp (edgesOf_within reads.branch.ends edge member u endpoint)
    · exact fun u first w second => (reads.branch.joins u first).symm.trans (reads.branch.joins w second)

namespace Table.FilledTo

/-- The fuel of a trail is enough for any known cell. -/
theorem fuel_suffices (filled : t.Filled relaxation g.adjacency terminals)
    (below : mask < 2 ^ terminals.length)
    (inside : v < g.size) {spent : Nat} (bounded : (spent : Int) + 1 ≤ 2 * mask + c)
    (cheap : c ≤ (mask * g.adjacency.size : Nat)) : spent ≤ (t.size + 1) * (t.size + 1) := by
  have row : mask * g.adjacency.size ≤ t.size := by
    rw [filled.size]
    exact Nat.mul_le_mul_right _ below.le
  have sets : mask ≤ t.size := by
    have positive : 0 < g.adjacency.size := by rw [g.adjacency_size]; omega
    rw [filled.size]
    exact below.le.trans (Nat.le_mul_of_pos_right _ positive)
  calc spent ≤ 2 * mask + mask * g.adjacency.size := by omega
    _ ≤ 2 * t.size + t.size * t.size := by
      have square : t.size ≤ t.size * t.size := Nat.le_mul_self _
      omega
    _ ≤ (t.size + 1) * (t.size + 1) := by
      rw [Nat.add_mul, Nat.mul_add, Nat.one_mul, Nat.mul_one]
      omega

/-- A tree is read off every known cell. -/
theorem exists_tree (filled : t.Filled relaxation g.adjacency terminals) (valid : g.WellFormed)
    (known : ∀ terminal ∈ terminals, terminal < g.size)
    (named : ∀ link ∈ g.links.toList, link.name.isHashable = true)
    (nonempty : mask ≠ 0) (below : mask < 2 ^ terminals.length) (inside : v < g.size)
    (cost : t.cost g mask v = some c) :
    ∃ tree, t.tree g terminals mask v = .ok tree ∧ tree.Reads g terminals mask v c := by
  obtain ⟨spent, vertices, links, followed⟩ :=
    filled.exists_followed valid known named nonempty below inside cost
  obtain ⟨kept, steps, sublist, distinct, complete⟩ := Trail.exists_distinctSteps links
  have connects := (filled.exists_cost_iff valid known nonempty below inside).mp ⟨c, cost⟩
  obtain ⟨d, other, cheap⟩ := filled.atMost_paths valid known nonempty below inside connects
  rw [cost] at other
  cases other
  have enough := filled.fuel_suffices below inside followed.bounded cheap
  have trail : t.trail g mask v = .ok ⟨vertices, kept.map some⟩ := by
    have run := followed.rest ((t.size + 1) * (t.size + 1) - spent) [] {}
    rw [Nat.add_sub_cancel' enough] at run
    simp only [Table.trail, Graph.vertexAt, if_pos inside, bind, Except.bind, run, follow, pure, Except.pure,
      List.nil_append, steps]
  have branch := followed.branch.of_distinct sublist.subset complete
  refine ⟨⟨terminals, g.vertices.filter (· ∈ vertices), kept, 0, v⟩, ?_, rfl, rfl, ?_, List.filter_sublist,
    distinct, ?_, ?_⟩
  · simp only [Table.tree, trail, bind, Except.bind, mapM_id_map_some]
    rfl
  · apply branch.of_mem_iff
    intro u
    rw [List.mem_filter, decide_eq_true_iff]
    exact and_iff_right_of_imp fun member => List.mem_range.mpr (branch.known u member)
  · intro u member
    have among := followed.holds u member
    exact List.mem_filter.mpr ⟨List.mem_range.mpr (branch.known u among), decide_eq_true among⟩
  · have fewer := sublist.length_le
    have count := followed.count
    change (kept.length : Int) ≤ c
    omega

end Table.FilledTo

end SteinerTrees
