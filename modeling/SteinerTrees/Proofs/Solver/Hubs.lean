import SteinerTrees.Proofs.Solver.Outcome

/-! # Hubs

The best tree is read off at its hub: of all vertices from which the terminals cost least, the one with the lowest
index. With relaxed rows these are the vertices of all minimum Steiner trees, so neither the hub nor the cost depends
on the order in which terminals are asked for, or on the tree that is read off. -/

namespace SteinerTrees

open Table

variable {g : Graph} {relaxation : Bool} {settings : SolverSettings} {terminals : List Nat} {labels again : List Value}
  {wanted : Set Nat} {opt hub other v : Nat} {c d : Int}

theorem Value.length_distinct_congr {values more : List Value} (fewer : values ⊆ more) (enough : more ⊆ values) :
    (Value.distinct values).length = (Value.distinct more).length := by
  have same : ((Value.distinct values).map Value.key).Perm ((Value.distinct more).map Value.key) := by
    refine (List.perm_ext_iff_of_nodup (nodup_key_distinct values) (nodup_key_distinct more)).mpr fun key => ?_
    rw [key_mem_distinct_iff, key_mem_distinct_iff]
    exact ⟨fun member => List.map_subset Value.key fewer member, fun member => List.map_subset Value.key enough member⟩
  simpa only [List.length_map] using same.length_eq

namespace Graph

/-! ## The best tree -/

/-- The first of the vertices from which all terminals cost least, with the cost. -/
structure IsHub (g : Graph) (relaxation : Bool) (terminals : List Nat) (hub : Nat) (c : Int) : Prop where
  inside : hub < g.size
  cost : (g.costTable relaxation terminals).cost g (fullMask terminals) hub = some c
  least : ∀ v < g.size, ∀ d, (g.costTable relaxation terminals).cost g (fullMask terminals) v = some d → c ≤ d
  first : ∀ v < hub, ∀ d, (g.costTable relaxation terminals).cost g (fullMask terminals) v = some d → c < d

/-- The tree that is read off at a hub, with its cost. -/
structure IsRead (g : Graph) (relaxation : Bool) (terminals : List Nat) (hub : Nat) (c : Int) (tree : Tree) : Prop where
  reads : tree.Reads g terminals (fullMask terminals) hub c
  source : ∃ read, (g.costTable relaxation terminals).tree g terminals (fullMask terminals) hub = .ok read ∧
    tree = { read with cost := c }

theorem IsRead.cost_eq {tree : Tree} (isRead : g.IsRead relaxation terminals hub c tree) : tree.cost = c := by
  obtain ⟨read, -, rfl⟩ := isRead.source
  rfl

/-- If a vertex can reach all terminals, the best tree is read off at the hub. -/
theorem exists_hub (relaxation : Bool) (valid : g.WellFormed) (known : ∀ terminal ∈ terminals, terminal < g.size)
    (named : ∀ link ∈ g.links.toList, link.name.isHashable = true) (nonempty : terminals ≠ []) (inside : v < g.size)
    (joined : ∀ u ∈ terminals, Joined g.edgeSet v u) : ∃ hub c, g.IsHub relaxation terminals hub c ∧
      ∃ tree, g.bestTree relaxation terminals = .ok tree ∧ g.IsRead relaxation terminals hub c tree := by
  have cells := fun u (inner : u < g.size) => cost_lastRow relaxation terminals inner
  obtain ⟨d, reached⟩ := (exists_cost_fullMask_iff relaxation valid known nonempty inside).mpr joined
  cases chosen : cheapest? ((g.costTable relaxation terminals).row (fullMask terminals * g.size) g.size) g.vertices with
  | none =>
    rw [← cells v inside, cheapest?_eq_none chosen (List.mem_range.mpr inside)] at reached
    cases reached
  | some hub =>
    obtain ⟨member, c, cost, least⟩ := cheapest?_eq_some chosen
    have inner : hub < g.size := List.mem_range.mp member
    have isHub : g.IsHub relaxation terminals hub c := by
      refine ⟨inner, (cells hub inner).symm.trans cost, fun u inside d known => ?_, fun u earlier d known => ?_⟩
      · exact atMost_some_iff.mp (cost ▸ least u (List.mem_range.mpr inside) d ((cells u inside).trans known))
      · have inside := earlier.trans inner
        obtain ⟨e, less, same⟩ := cheapest?_first List.pairwise_lt_range chosen u (List.mem_range.mpr inside) earlier d
          ((cells u inside).trans known)
        cases cost.symm.trans same
        exact less
    obtain ⟨tree, read, reads⟩ := (g.filled_costTable relaxation terminals).exists_tree valid known named
      (fullMask_ne_zero nonempty) (fullMask_lt terminals) inner isHub.cost
    refine ⟨hub, c, isHub, { tree with cost := c }, ?_,
      ⟨reads.1, reads.2, reads.3, reads.4, reads.5, reads.6, reads.7⟩, tree, read, rfl⟩
    simp only [bestTree, chosen, read, cost]
    rfl

/-! ## Queries that can be answered -/

theorem mem_found_congr (fewer : again ⊆ labels) (enough : labels ⊆ again) :
    v ∈ g.found again ↔ v ∈ g.found labels := by
  rw [mem_found_iff, mem_found_iff]
  exact ⟨fun ⟨label, member, here⟩ => ⟨label, fewer member, here⟩,
    fun ⟨label, member, here⟩ => ⟨label, enough member, here⟩⟩

/-- Labels that name two or more vertices, all in one component and not too many. -/
structure Answerable (g : Graph) (settings : SolverSettings) (labels : List Value) : Prop where
  hashable : ∀ label ∈ labels, label.isHashable = true
  present : ∀ label ∈ labels, g.indexOf? label ≠ none
  together : g.InOneComponent (g.found labels)
  several : 2 ≤ (Value.distinct labels).length
  few : (Value.distinct labels).length ≤ settings.maxTerminals

namespace Answerable

theorem complete (answerable : g.Answerable settings labels) : g.missing labels = [] :=
  missing_eq_nil_iff.mpr answerable.present

theorem found_ne_nil (answerable : g.Answerable settings labels) : g.found labels ≠ [] := by
  have several := answerable.several
  rw [← length_found answerable.complete] at several
  exact List.ne_nil_of_length_pos (by omega)

/-- The order and the repetition of labels do not matter. -/
theorem congr (answerable : g.Answerable settings labels) (fewer : again ⊆ labels) (enough : labels ⊆ again) :
    g.Answerable settings again where
  hashable label member := answerable.hashable label (fewer member)
  present label member := answerable.present label (fewer member)
  together u first v second := answerable.together u ((mem_found_congr fewer enough).mp first) v
    ((mem_found_congr fewer enough).mp second)
  several := Value.length_distinct_congr fewer enough ▸ answerable.several
  few := by
    rw [Value.length_distinct_congr fewer enough]
    exact answerable.few

/-- Such a query is answered with the best tree, read off at the hub. -/
theorem exists_hub (answerable : g.Answerable settings labels) (valid : g.WellFormed)
    (named : ∀ link ∈ g.links.toList, link.name.isHashable = true) :
    ∃ hub c, g.IsHub settings.relaxation (g.found labels) hub c ∧
      ∃ tree, g.solve settings labels = .ok tree ∧ g.IsRead settings.relaxation (g.found labels) hub c tree := by
  have count := length_found answerable.complete
  have known := g.lt_size_of_mem_found labels
  have together := answerable.together
  have several := answerable.several
  have few := answerable.few
  rw [solve_of_complete settings answerable.hashable answerable.complete]
  rw [← count] at several few
  match listed : g.found labels with
  | [] | [_] => rw [listed] at several; simp at several
  | first :: second :: rest =>
    rw [listed] at known few together
    obtain ⟨hub, c, isHub, tree, best, read⟩ := Graph.exists_hub settings.relaxation valid known named
      (List.cons_ne_nil _ _) (known first List.mem_cons_self) fun u member => simple_reachable_iff.mp
        (together first List.mem_cons_self u member)
    refine ⟨hub, c, isHub, tree, ?_, read⟩
    rw [solveResolved, if_neg (not_lt.mpr few), if_neg (List.cons_ne_nil second rest), best]

theorem unnamed (answerable : g.Answerable settings labels) : g.unnamed.Answerable settings labels where
  hashable := answerable.hashable
  present := answerable.present
  together u first v second := by
    rw [simple_unnamed]
    exact answerable.together u first v second
  several := answerable.several
  few := answerable.few

/-- Such a query fails only for the name of a link. -/
theorem failsForName_of_solve (answerable : g.Answerable settings labels) (valid : g.WellFormed) {failure : Failure}
    (failed : g.solve settings labels = .error failure) :
    (∃ part, failure = .misuse (.unhashable part)) ∧ ∃ link ∈ g.links.toList, link.name.isHashable = false := by
  constructor
  · obtain ⟨hub, c, -, plain, solved, -⟩ := answerable.unnamed.exists_hub valid.unnamed g.isHashable_unnamed
    rw [solve_of_complete settings answerable.unnamed.hashable answerable.unnamed.complete] at solved
    rw [solve_of_complete settings answerable.hashable answerable.complete] at failed
    refine (FailsAlike.solveResolved g settings (g.found labels) failure failed).resolve_right fun alike => ?_
    cases alike.symm.trans solved
  · by_contra named
    push Not at named
    obtain ⟨hub, c, -, tree, solved, -⟩ :=
      answerable.exists_hub valid fun link member => Bool.not_eq_false _ ▸ named link member
    cases failed.symm.trans solved

end Answerable

/-! ## Minimum Steiner trees -/

/-- A minimum Steiner tree of some vertices: a subgraph that is a tree and holds them, with the fewest edges of all
connected subgraphs that do. -/
structure IsSteinerTree (g : Graph) (wanted : Set Nat) (part : g.simple.Subgraph) : Prop where
  known : ∀ v ∈ part.verts, v < g.size
  isTree : part.coe.IsTree
  holds : wanted ⊆ part.verts
  least : IsLeast {size | g.Spans wanted size} part.edgeSet.ncard

theorem members_fullMask (terminals : List Nat) : members terminals (fullMask terminals) = {u | u ∈ terminals} := by
  rw [fullMask_eq]
  exact Set.ext fun u => mem_members_full

/-- With relaxed rows, no cost is below that of a minimum Steiner tree. -/
theorem le_cost (valid : g.WellFormed) (known : ∀ terminal ∈ terminals, terminal < g.size)
    (least : IsLeast {size | g.Spans {u | u ∈ terminals} size} opt) (inside : v < g.size)
    (cost : (g.costTable relaxation terminals).cost g (fullMask terminals) v = some c) : opt ≤ c := by
  obtain ⟨edges, subset, few, connects⟩ :=
    (g.filled_costTable relaxation terminals).exists_edges valid known (fullMask_lt terminals) inside cost
  obtain ⟨size, fewer, spans⟩ := connects.exists_spans valid subset inside
  rw [members_fullMask] at spans
  have enough := least.2 (spans.mono (Set.subset_insert v _))
  omega

/-- With relaxed rows, a vertex lies on a minimum Steiner tree exactly if the terminals cost as much as that from it. -/
theorem exists_isSteinerTree_iff (valid : g.WellFormed) (known : ∀ terminal ∈ terminals, terminal < g.size)
    (nonempty : terminals ≠ []) (least : IsLeast {size | g.Spans {u | u ∈ terminals} size} opt) :
    (∃ part, g.IsSteinerTree {u | u ∈ terminals} part ∧ v ∈ part.verts) ↔
      v < g.size ∧ (g.costTable true terminals).cost g (fullMask terminals) v = some (opt : Int) := by
  have filled := g.filled_costTable true terminals
  have below := fullMask_lt terminals
  constructor
  · rintro ⟨part, steiner, member⟩
    have inside := steiner.known v member
    have spans : g.Spans (insert v (members terminals (fullMask terminals))) opt := by
      rw [members_fullMask]
      exact ⟨part, steiner.known, ⟨steiner.isTree.1.1⟩, Set.insert_subset member steiner.holds,
        steiner.least.unique least⟩
    obtain ⟨edges, subset, count, connects⟩ := spans.exists_connects
    obtain ⟨c, cost, cheap⟩ := filled.atMost_card valid known (fullMask_ne_zero nonempty) below inside subset connects
    have enough := le_cost valid known least inside cost
    obtain rfl : c = opt := by omega
    exact ⟨inside, cost⟩
  · rintro ⟨inside, cost⟩
    obtain ⟨edges, subset, few, connects⟩ := filled.exists_edges valid known below inside cost
    obtain ⟨size, fewer, spans⟩ := connects.exists_spans valid subset inside
    rw [members_fullMask] at spans
    obtain ⟨part, within, isTree, holds, count⟩ := spans.exists_isTree (Set.insert_nonempty v _)
    have wanted := (Set.subset_insert v _).trans holds
    have enough := least.2 ⟨part, within, ⟨isTree.1.1⟩, wanted, rfl⟩
    have same : part.edgeSet.ncard = opt := by omega
    exact ⟨part, ⟨within, isTree, wanted, same ▸ least⟩, holds (Set.mem_insert v _)⟩

/-- The hub of a relaxed table is the first of all vertices on minimum Steiner trees, and its cost is theirs. -/
theorem IsHub.isLeast (isHub : g.IsHub true terminals hub c) (valid : g.WellFormed)
    (known : ∀ terminal ∈ terminals, terminal < g.size) (nonempty : terminals ≠ []) :
    ∃ opt : Nat, c = opt ∧ IsLeast {size | g.Spans {u | u ∈ terminals} size} opt ∧
      IsLeast {v | ∃ part, g.IsSteinerTree {u | u ∈ terminals} part ∧ v ∈ part.verts} hub := by
  obtain ⟨edges, subset, -, connects⟩ := (g.filled_costTable true terminals).exists_edges valid known
    (fullMask_lt terminals) isHub.inside isHub.cost
  obtain ⟨size, -, spans⟩ := connects.exists_spans valid subset isHub.inside
  rw [members_fullMask] at spans
  have some : {size | g.Spans {u | u ∈ terminals} size}.Nonempty := ⟨size, spans.mono (Set.subset_insert hub _)⟩
  obtain ⟨opt, least⟩ : ∃ opt, IsLeast {size | g.Spans {u | u ∈ terminals} size} opt :=
    ⟨_, Nat.sInf_mem some, fun _ => Nat.sInf_le⟩
  have enough := le_cost valid known least isHub.inside isHub.cost
  -- A minimum Steiner tree has a vertex, which costs no more than the hub.
  obtain ⟨first, member⟩ := List.exists_mem_of_ne_nil terminals nonempty
  obtain ⟨part, within, isTree, holds, count⟩ := least.1.exists_isTree ⟨first, member⟩
  have fewest := least.2 ⟨part, within, ⟨isTree.1.1⟩, holds, rfl⟩
  have same : part.edgeSet.ncard = opt := by omega
  obtain ⟨inside, cost⟩ := (exists_isSteinerTree_iff valid known nonempty least).mp
    ⟨part, ⟨within, isTree, holds, same ▸ least⟩, holds member⟩
  have cheap := isHub.least first inside opt cost
  obtain rfl : c = opt := by omega
  refine ⟨opt, rfl, least, (exists_isSteinerTree_iff valid known nonempty least).mpr ⟨isHub.inside, isHub.cost⟩, ?_⟩
  intro v steiner
  obtain ⟨-, cost⟩ := (exists_isSteinerTree_iff valid known nonempty least).mp steiner
  by_contra earlier
  exact lt_irrefl _ (isHub.first v (not_le.mp earlier) opt cost)

/-- With relaxed rows, a query is answered with the cost of a minimum Steiner tree, and with the first of all vertices
on minimum Steiner trees as its hub. Both stay the same if its labels are listed in another order, or repeated. -/
theorem solve_hub (built : g.Built) (named : ∀ link ∈ g.links.toList, link.name.isHashable = true)
    (relaxed : settings.relaxation = true) (answerable : g.Answerable settings labels) : ∃ hub opt : Nat,
      IsLeast {v | ∃ part, g.IsSteinerTree {u | u ∈ g.found labels} part ∧ v ∈ part.verts} hub ∧
      IsLeast {size | g.Spans {u | u ∈ g.found labels} size} opt ∧
      ∀ again : List Value, again ⊆ labels → labels ⊆ again →
        ∃ tree, g.solve settings again = .ok tree ∧ tree.hub = some hub ∧ tree.cost = opt := by
  have valid := built.wellFormed
  have answers : ∀ again : List Value, again ⊆ labels → labels ⊆ again → ∃ hub opt : Nat,
      IsLeast {v | ∃ part, g.IsSteinerTree {u | u ∈ g.found labels} part ∧ v ∈ part.verts} hub ∧
      IsLeast {size | g.Spans {u | u ∈ g.found labels} size} opt ∧
        ∃ tree, g.solve settings again = .ok tree ∧ tree.hub = some hub ∧ tree.cost = opt := by
    intro again fewer enough
    have same : {u | u ∈ g.found again} = {u | u ∈ g.found labels} := Set.ext fun u => mem_found_congr fewer enough
    have answerable := answerable.congr fewer enough
    obtain ⟨hub, c, isHub, tree, solved, read⟩ := answerable.exists_hub valid named
    rw [relaxed] at isHub
    obtain ⟨opt, rfl, least, first⟩ := isHub.isLeast valid (g.lt_size_of_mem_found again) answerable.found_ne_nil
    rw [same] at least first
    exact ⟨hub, opt, first, least, tree, solved, read.reads.hub, read.cost_eq⟩
  obtain ⟨hub, opt, first, least, -⟩ := answers labels (List.Subset.refl _) (List.Subset.refl _)
  refine ⟨hub, opt, first, least, fun again fewer enough => ?_⟩
  obtain ⟨other, cost, second, cheapest, answer⟩ := answers again fewer enough
  rwa [second.unique first, cheapest.unique least] at answer

theorem answerable_bridged (relaxation : Bool) : bridged.Answerable { relaxation } bridgedTerminals where
  hashable := by decide +kernel
  present := by decide +kernel
  together u first v second := joined_bridged (bridged.lt_size_of_mem_found _ u first)
    (bridged.lt_size_of_mem_found _ v second)
  several := by decide +kernel
  few := by
    have four : (Value.distinct bridgedTerminals).length = 4 := by decide +kernel
    change ((Value.distinct bridgedTerminals).length : Int) ≤ 16
    omega

/-- The hub is an end of the bridge. Neither is it a terminal, nor is it the first vertex, and it stays the same for
terminals in another order. -/
theorem solve_hub_bridged : bridged.Answerable {} bridgedTerminals ∧
    IsLeast {v | ∃ part, bridged.IsSteinerTree {u | u ∈ bridged.found bridgedTerminals} part ∧ v ∈ part.verts} 1 ∧
    ∃ tree, bridged.solve {} [.text "t4", .text "t2", .text "t3", .text "t1", .text "t2"] = .ok tree ∧
      tree.hub = some 1 ∧ tree.cost = 5 := by
  obtain ⟨hub, opt, first, -, answers⟩ := solve_hub built_bridged named_bridged rfl (answerable_bridged true)
  obtain ⟨tree, solved, found, cost⟩ := answers [.text "t4", .text "t2", .text "t3", .text "t1", .text "t2"]
    (by simp [bridgedTerminals]) (by simp [bridgedTerminals])
  have values : (bridged.solve {} [.text "t4", .text "t2", .text "t3", .text "t1", .text "t2"]).toOption.map
      (fun tree => (tree.hub, tree.cost)) = some (some 1, 5) := by decide +kernel
  rw [solved] at values
  obtain ⟨hubs, five⟩ := Prod.mk.inj (Option.some.inj values)
  obtain rfl : 1 = hub := Option.some.inj (hubs.symm.trans found)
  exact ⟨answerable_bridged true, first, tree, solved, found, five⟩

end Graph

end SteinerTrees
