import SteinerTrees.Proofs.Solver.Tree
import SteinerTrees.Proofs.Value.Reading
import SteinerTrees.Proofs.Value.Limits

/-! # Queries

A query for terminals fails exactly if a label is no vertex, if there are too many terminals, or if they do not
lie in one component. Otherwise it answers a tree, and with relaxed rows no connected subgraph that holds the
terminals has fewer edges. -/

namespace SteinerTrees

open Table

variable {g : Graph} {relaxation : Bool} {settings : SolverSettings} {terminals : List Nat}
  {labels : List Value} {tree : Tree}
  {u v : Nat}

namespace Graph

/-! ## Terminals -/

/-- The distinct labels that are no vertices, in the order of first occurrence. -/
def missing (g : Graph) (labels : List Value) : List Value :=
  (Value.distinct labels).filter fun label => (g.indexOf? label).isNone

/-- The vertices of the distinct labels, in the order of first occurrence. -/
def found (g : Graph) (labels : List Value) : List Nat := (Value.distinct labels).filterMap g.indexOf?

theorem resolveTerminals_eq (hashable : ∀ label ∈ labels, label.isHashable = true) :
    g.resolveTerminals labels =
      if g.missing labels = [] then .ok (g.found labels)
      else .error (Failure.terminalsNotFound (g.missing labels)).written := by
  have read := Value.mapM_asLabel_eq_ok_iff.mpr ⟨hashable, rfl⟩
  cases absent : g.missing labels with
  | nil =>
    rw [missing] at absent
    simp only [resolveTerminals, read, bind, Except.bind, absent, ↓reduceIte]
    rfl
  | cons first rest =>
    rw [missing] at absent
    simp only [resolveTerminals, read, bind, Except.bind, absent, reduceCtorEq, ↓reduceIte]
    rfl

theorem missing_eq_nil_iff : g.missing labels = [] ↔ ∀ label ∈ labels, g.indexOf? label ≠ none := by
  rw [missing, List.filter_eq_nil_iff]
  simp only [Option.isNone_iff_eq_none]
  constructor
  · intro complete label member absent
    obtain ⟨kept, listed, same⟩ := Value.exists_mem_distinct member
    exact complete kept listed (indexOf?_congr same ▸ absent)
  · exact fun present label member => present label (Value.mem_of_mem_distinct member)

/-- If no label is missing, each has its vertex. -/
theorem map_some_found (complete : g.missing labels = []) :
    (g.found labels).map some = (Value.distinct labels).map g.indexOf? := by
  refine map_some_filterMap g.indexOf? _ fun label member => ?_
  exact missing_eq_nil_iff.mp complete label (Value.mem_of_mem_distinct member)

theorem length_found (complete : g.missing labels = []) :
    (g.found labels).length = (Value.distinct labels).length := by
  have lengths := congrArg List.length (map_some_found complete)
  rwa [List.length_map, List.length_map] at lengths

theorem lt_size_of_mem_found (g : Graph) (labels : List Value) : ∀ v ∈ g.found labels, v < g.size := by
  intro v member
  obtain ⟨label, -, here⟩ := List.mem_filterMap.mp member
  exact (indexOf?_spec here).1

theorem mem_found_iff : v ∈ g.found labels ↔ ∃ label ∈ labels, g.indexOf? label = some v := by
  rw [found, List.mem_filterMap]
  constructor
  · rintro ⟨label, member, here⟩
    exact ⟨label, Value.mem_of_mem_distinct member, here⟩
  · rintro ⟨label, member, here⟩
    obtain ⟨kept, first, same⟩ := Value.exists_mem_distinct member
    exact ⟨kept, first, (indexOf?_congr same).trans here⟩

/-! ## The best tree -/

theorem fullMask_eq (terminals : List Nat) : fullMask terminals = 2 ^ terminals.length - 1 := by
  rw [fullMask, Nat.pow_eq]

theorem fullMask_lt (terminals : List Nat) : fullMask terminals < 2 ^ terminals.length := by
  have positive := Nat.two_pow_pos terminals.length
  rw [fullMask_eq]
  omega

theorem fullMask_ne_zero (nonempty : terminals ≠ []) : fullMask terminals ≠ 0 := by
  have several : 2 ≤ 2 ^ terminals.length := Nat.le_self_pow (List.length_pos_iff.mpr nonempty).ne' 2
  rw [fullMask_eq]
  omega

/-- Edges join a vertex to the set of all terminals if they join it to each. -/
theorem connects_fullMask_iff {edges : Edges} :
    Connects edges terminals (fullMask terminals) v ↔ ∀ u ∈ terminals, Joined edges v u := by
  rw [fullMask_eq]
  exact forall_congr' fun u => by rw [mem_members_full]

/-- The last row holds what all terminals cost from each vertex. -/
theorem cost_lastRow (relaxation : Bool) (terminals : List Nat) (inside : v < g.size) :
    (((g.costTable relaxation terminals).row (fullMask terminals * g.size) g.size).getD v {}).cost =
      (g.costTable relaxation terminals).cost g (fullMask terminals) v := by
  rw [getD_row inside, Table.cost, entry, g.adjacency_size]

/-- All terminals have a cost from a vertex if it is joined to each. -/
theorem exists_cost_fullMask_iff (relaxation : Bool) (valid : g.WellFormed)
    (known : ∀ terminal ∈ terminals, terminal < g.size) (nonempty : terminals ≠ []) (inside : v < g.size) :
    (∃ c, (g.costTable relaxation terminals).cost g (fullMask terminals) v = some c) ↔
      ∀ u ∈ terminals, Joined g.edgeSet v u := by
  rw [(g.filled_costTable relaxation terminals).exists_cost_iff valid known (fullMask_ne_zero nonempty)
    (fullMask_lt terminals) inside, connects_fullMask_iff]

/-- The best tree is read off at a vertex of least cost; there is none if no vertex can reach all terminals. -/
theorem bestTree_cases (relaxation : Bool) (valid : g.WellFormed)
    (known : ∀ terminal ∈ terminals, terminal < g.size)
    (named : ∀ link ∈ g.links.toList, link.name.isHashable = true) (nonempty : terminals ≠ []) :
    ((∀ v < g.size, ¬ ∀ u ∈ terminals, Joined g.edgeSet v u) ∧
      g.bestTree relaxation terminals = .error (Failure.disconnected (terminals.map g.label)).written) ∨
    ∃ hub < g.size, ∃ c, ∃ tree : Tree, (∀ u ∈ terminals, Joined g.edgeSet hub u) ∧
      (∀ v < g.size, ∀ bound,
        AtMost bound ((g.costTable relaxation terminals).cost g (fullMask terminals) v) → c ≤ bound) ∧
      tree.Reads g terminals (fullMask terminals) hub c ∧
      g.bestTree relaxation terminals = .ok { tree with cost := c } := by
  have reach := fun v (inside : v < g.size) => exists_cost_fullMask_iff relaxation valid known nonempty inside
  cases chosen : cheapest? ((g.costTable relaxation terminals).row (fullMask terminals * g.size) g.size) g.vertices with
  | none =>
    refine .inl ⟨?_, by simp only [bestTree, chosen]; rfl⟩
    intro v inside joined
    obtain ⟨c, cost⟩ := (reach v inside).mpr joined
    rw [← cost_lastRow relaxation terminals inside, cheapest?_eq_none chosen (List.mem_range.mpr inside)] at cost
    cases cost
  | some hub =>
    obtain ⟨member, c, cost, least⟩ := cheapest?_eq_some chosen
    have inside : hub < g.size := List.mem_range.mp member
    have reached := (cost_lastRow relaxation terminals inside).symm.trans cost
    obtain ⟨tree, read, reads⟩ := (g.filled_costTable relaxation terminals).exists_tree valid known named
      (fullMask_ne_zero nonempty) (fullMask_lt terminals) inside reached
    refine .inr ⟨hub, inside, c, tree, (reach hub inside).mp ⟨c, reached⟩, ?_, reads, ?_⟩
    · rintro v other bound ⟨d, cheap, le⟩
      obtain ⟨e, same, nearer⟩ :=
        least v (List.mem_range.mpr other) d ((cost_lastRow relaxation terminals other).trans cheap)
      rw [cost] at same
      cases same
      omega
    · simp only [bestTree, chosen, read, cost]
      rfl

/-! ## Minimum trees -/

/-- A tree of a graph that holds some terminals, with the fewest edges of all connected subgraphs that do. -/
structure IsMinimumTree (g : Graph) (terminals : Set Nat) (tree : Tree) : Prop where
  known : ∀ v ∈ tree.vertices, v < g.size
  used : ∀ link ∈ tree.links, link ∈ g.links.toList
  once : (tree.links.map Link.pair).Nodup
  loopless : ∀ link ∈ tree.links, link.source ≠ link.target
  ends : ∀ link ∈ tree.links, link.source ∈ tree.vertices ∧ link.target ∈ tree.vertices
  holds : ∀ v ∈ terminals, v ∈ tree.vertices
  distinct : tree.vertices.Nodup
  connected : (g.part {v | v ∈ tree.vertices} (edgesOf tree.links)).Preconnected
  acyclic : (g.part {v | v ∈ tree.vertices} (edgesOf tree.links)).coe.IsAcyclic
  cost : tree.cost = tree.links.length
  count : terminals.Nonempty → tree.vertices.length = tree.links.length + 1
  least : IsLeast {size | g.Spans terminals size} tree.links.length

/-- Edges that join all terminals are no fewer than the links of the tree of least cost. -/
def IsLowerBound (g : Graph) (terminals : List Nat) (c : Int) : Prop :=
  ∀ edges ⊆ g.edgeSet, (∀ u ∈ terminals, ∀ v ∈ terminals, Joined edges u v) → c ≤ edges.card

theorem isLowerBound_of_relaxed (valid : g.WellFormed) (known : ∀ terminal ∈ terminals, terminal < g.size)
    (nonempty : terminals ≠ []) {c : Int} (least : ∀ v < g.size, ∀ bound,
      AtMost bound ((g.costTable true terminals).cost g (fullMask terminals) v) → c ≤ bound) :
    g.IsLowerBound terminals c := by
  intro edges subset joined
  obtain ⟨first, member⟩ := List.exists_mem_of_ne_nil terminals nonempty
  have inside := known first member
  exact least first inside _ ((g.filled_costTable true terminals).atMost_card valid known
    (fullMask_ne_zero nonempty)
    (fullMask_lt terminals) inside subset (connects_fullMask_iff.mpr (joined first member)))

/-- If no fewer edges join the terminals, the links of a branch that holds them are a spanning tree of its
vertices. -/
theorem isSpanningTree_of_branch {links : List Link} {vertices : List Nat}
    (branch : Branch g u vertices links)
    (holds : ∀ v ∈ terminals, v ∈ vertices) {c : Int} (bound : g.IsLowerBound terminals c)
    (count : (links.length : Int) ≤ c) :
    IsSpanningTree (edgesOf links) vertices.toFinset ∧ ((edgesOf links).card : Int) = c := by
  have joins : JoinsAll (edgesOf links) vertices.toFinset := by
    intro a first b second
    exact (branch.joins a (List.mem_toFinset.mp first)).symm.trans
      (branch.joins b (List.mem_toFinset.mp second))
  have few : (edgesOf links).card ≤ links.length := (List.toFinset_card_le _).trans (List.length_map _).le
  obtain ⟨tree, subset, spanning⟩ := joins.exists_spanning_tree ⟨u, List.mem_toFinset.mpr branch.rooted⟩
    (edgesOf_within branch.ends)
  have enough : c ≤ tree.card :=
    bound tree (subset.trans (edgesOf_subset_edgeSet branch.used)) fun a first b second =>
    spanning.joins a (List.mem_toFinset.mpr (holds a first)) b (List.mem_toFinset.mpr (holds b second))
  have fewer := Finset.card_le_card subset
  have whole : tree = edgesOf links := Finset.eq_of_subset_of_card_le subset (by omega)
  rw [whole] at spanning enough
  exact ⟨spanning, by omega⟩

/-- A tree that holds the terminals and has no more links than any edges that join them is a minimum tree. -/
theorem isMinimumTree_of_branch {hub : Nat} (branch : Branch g hub tree.vertices tree.links)
    (ascending : tree.vertices.Sublist g.vertices) (once : (tree.links.map Link.pair).Nodup)
    (holds : ∀ v ∈ terminals, v ∈ tree.vertices) (bound : g.IsLowerBound terminals tree.cost)
    (count : (tree.links.length : Int) ≤ tree.cost) : g.IsMinimumTree {v | v ∈ terminals} tree := by
  obtain ⟨spanning, size⟩ := isSpanningTree_of_branch branch holds bound count
  have distinct : tree.vertices.Nodup := ascending.nodup List.nodup_range
  have links := card_edgesOf once
  have isTree := part_isTree_of_spanning branch.used branch.loopless spanning
  have connected : (g.part {v | v ∈ tree.vertices} (edgesOf tree.links)).Preconnected := ⟨isTree.1.1⟩
  refine ⟨branch.known, branch.used, once, branch.loopless, branch.ends, holds, distinct, connected,
    isTree.2, by omega,
    fun _ => spanning.length_eq once distinct, ?_, ?_⟩
  · refine ⟨_, branch.known, connected, holds, ?_⟩
    rw [edgeSet_part (edgesOf_subset_edgeSet branch.used) ?_ (edgesOf_loopless branch.loopless), Set.ncard_coe_finset,
      links]
    exact fun edge member v endpoint => List.mem_toFinset.mp (spanning.within edge member v endpoint)
  · rintro k ⟨part, -, joined, inside, rfl⟩
    obtain ⟨edges, subset, same, joins⟩ := exists_edges_of_preconnected joined
    have lower := bound edges subset fun a first b second => joins a (inside first) b (inside second)
    omega

/-! ## The answer to a query -/

/-- All of some vertices lie in one component. -/
def InOneComponent (g : Graph) (terminals : List Nat) : Prop :=
  ∀ u ∈ terminals, ∀ v ∈ terminals, g.simple.Reachable u v

theorem isMinimumTree_empty (g : Graph) : g.IsMinimumTree {v | v ∈ ([] : List Nat)} { terminals := [] } := by
  have absent : ∀ v : (g.part {v | v ∈ ([] : List Nat)} (edgesOf [])).verts, False :=
    fun v => absurd v.2 List.not_mem_nil
  have connected : (g.part {v | v ∈ ([] : List Nat)} (edgesOf [])).Preconnected := ⟨fun v => (absent v).elim⟩
  have edgeless : (g.part {v | v ∈ ([] : List Nat)} (edgesOf [])).edgeSet = ∅ :=
    Set.subset_empty_iff.mp fun edge member => Finset.notMem_empty edge (edgeSet_part_subset g _ _ member)
  constructor
  case known => exact fun _ member => absurd member List.not_mem_nil
  case used => exact fun _ member => absurd member List.not_mem_nil
  case once => exact List.nodup_nil
  case loopless => exact fun _ member => absurd member List.not_mem_nil
  case ends => exact fun _ member => absurd member List.not_mem_nil
  case holds => exact fun _ member => member
  case distinct => exact List.nodup_nil
  case connected => exact connected
  case acyclic => exact fun v => (absent v).elim
  case cost => rfl
  case count => exact fun ⟨_, member⟩ => absurd member List.not_mem_nil
  case least =>
    refine ⟨⟨_, fun _ member => absurd member List.not_mem_nil, connected, subset_rfl, ?_⟩,
      fun _ _ => Nat.zero_le _⟩
    rw [edgeless, Set.ncard_empty]
    rfl

theorem isMinimumTree_single (inside : v < g.size) :
    g.IsMinimumTree {u | u ∈ [v]} { terminals := [v], vertices := [v], hub := v } := by
  refine isMinimumTree_of_branch (Branch.point inside) ?_ List.nodup_nil (fun _ member => member)
    (fun _ _ _ => Int.natCast_nonneg _) le_rfl
  exact List.singleton_sublist.mpr (List.mem_range.mpr inside)

namespace IsMinimumTree

variable {wanted : Set Nat} {edges : Edges}

theorem isConnector (minimum : g.IsMinimumTree wanted tree) : g.IsConnector wanted tree where
  known := minimum.known
  distinct := minimum.distinct
  used := minimum.used
  once := minimum.once
  loopless := minimum.loopless
  ends := minimum.ends
  holds := minimum.holds
  connected := minimum.connected

/-- Edges that join the terminals are no fewer than the links of a minimum tree. -/
theorem length_links_le (minimum : g.IsMinimumTree wanted tree) (valid : g.WellFormed)
    (subset : edges ⊆ g.edgeSet)
    (joined : ∀ u ∈ wanted, ∀ v ∈ wanted, Joined edges u v) : tree.links.length ≤ edges.card := by
  rcases wanted.eq_empty_or_nonempty with rfl | ⟨first, member⟩
  · have edgeless : g.Spans ∅ 0 := by
      have least := (isMinimumTree_empty g).least.1
      rwa [show {v | v ∈ ([] : List Nat)} = ∅ from Set.eq_empty_of_forall_notMem fun _ =>
        List.not_mem_nil] at least
    exact (minimum.least.2 edgeless).trans (Nat.zero_le _)
  · obtain ⟨size, few, part, known, connected, holds, count⟩ :=
      exists_spans_of_joined valid subset (minimum.known first (minimum.holds first member))
    have spans : g.Spans wanted size :=
      ⟨part, known, connected, fun v other => holds (joined first member v other), count⟩
    exact (minimum.least.2 spans).trans few

/-- A minimum tree with vertices has one more of them than links. -/
theorem length_vertices (minimum : g.IsMinimumTree wanted tree) (valid : g.WellFormed)
    (nonempty : tree.vertices ≠ []) :
    tree.vertices.length = tree.links.length + 1 := by
  obtain ⟨root, member⟩ := List.exists_mem_of_ne_nil _ nonempty
  obtain ⟨few, subset, spanning⟩ := minimum.isConnector.joins.exists_spanning_tree ⟨root, List.mem_toFinset.mpr member⟩
    (edgesOf_within minimum.ends)
  have among := subset.trans (edgesOf_subset_edgeSet minimum.used)
  have enough := minimum.length_links_le valid among fun u first v second =>
    spanning.joins u (List.mem_toFinset.mpr (minimum.holds u first)) v
      (List.mem_toFinset.mpr (minimum.holds v second))
  have fewer := Finset.card_le_card subset
  have count := spanning.count
  rw [card_edgesOf minimum.once] at fewer
  rw [List.toFinset_card_of_nodup minimum.distinct] at count
  omega

end IsMinimumTree

/-- What a query for some vertices comes to. -/
theorem solveResolved_cases (valid : g.WellFormed) (known : ∀ terminal ∈ terminals, terminal < g.size)
    (named : ∀ link ∈ g.links.toList, link.name.isHashable = true) (settings : SolverSettings) :
    ((1 ≤ terminals.length ∧ settings.maxTerminals < terminals.length) ∧
      (g.solveResolved settings terminals).2 =
      .error (Failure.tooManyTerminals terminals.length settings.maxTerminals).written) ∨
    (¬ (1 ≤ terminals.length ∧ settings.maxTerminals < terminals.length) ∧
      (2 ≤ terminals.length ∧ ¬ g.InOneComponent terminals) ∧
      (g.solveResolved settings terminals).2 = .error (Failure.disconnected (terminals.map g.label)).written) ∨
    (¬ (1 ≤ terminals.length ∧ settings.maxTerminals < terminals.length) ∧
      ¬ (2 ≤ terminals.length ∧ ¬ g.InOneComponent terminals) ∧
      ∃ tree, (g.solveResolved settings terminals).2 = .ok tree ∧ tree.terminals = terminals ∧
        (settings.relaxation = true → g.IsMinimumTree {v | v ∈ terminals} tree)) := by
  cases terminals with
  | nil => exact .inr (.inr ⟨by simp, by simp, _, rfl, rfl, fun _ => isMinimumTree_empty g⟩)
  | cons first rest =>
    by_cases many : settings.maxTerminals < (first :: rest).length
    · exact .inl ⟨⟨by simp, many⟩, by rw [solveResolved, if_pos many]⟩
    have few : ¬ (1 ≤ (first :: rest).length ∧ settings.maxTerminals < (first :: rest).length) :=
      fun both => many both.2
    by_cases single : rest = []
    · subst single
      exact .inr (.inr ⟨few, by simp, _, by rw [solveResolved, if_neg many, if_pos rfl], rfl,
        fun _ => isMinimumTree_single (known first List.mem_cons_self)⟩)
    have several : 2 ≤ (first :: rest).length := by
      rw [List.length_cons]
      exact Nat.succ_le_succ (List.length_pos_iff.mpr single)
    have inside : first < g.size := known first List.mem_cons_self
    rcases bestTree_cases settings.relaxation valid known named (List.cons_ne_nil first rest) with
      ⟨apart, failed⟩ | ⟨hub, -, c, tree, joined, least, reads, read⟩
    · refine .inr (.inl ⟨few, ⟨several, ?_⟩, ?_⟩)
      · intro together
        exact apart first inside fun u member => simple_reachable_iff.mp
          (together first List.mem_cons_self u member)
      · rw [solveResolved, if_neg many, if_neg single, failed]
    · refine .inr (.inr ⟨few, ?_, { tree with cost := c }, ?_, reads.listed, ?_⟩)
      · rintro ⟨-, apart⟩
        exact apart fun u first v second => simple_reachable_iff.mpr
          ((joined u first).symm.trans (joined v second))
      · rw [solveResolved, if_neg many, if_neg single, read]
      · intro relaxed
        rw [relaxed] at least
        have bound := isLowerBound_of_relaxed valid known (List.cons_ne_nil first rest) least
        refine isMinimumTree_of_branch reads.branch reads.ascending reads.distinct ?_ bound reads.count
        intro v member
        apply reads.holds
        rw [fullMask_eq, mem_members_full]
        exact member

theorem solve_of_missing (settings : SolverSettings) (hashable : ∀ label ∈ labels, label.isHashable = true)
    (missing : g.missing labels ≠ []) :
    g.solve settings labels = .error (Failure.terminalsNotFound (g.missing labels)).written := by
  rw [solve, solveLogged, resolveTerminals_eq hashable, if_neg missing]

theorem solve_of_complete (settings : SolverSettings) (hashable : ∀ label ∈ labels, label.isHashable = true)
    (complete : g.missing labels = []) :
    g.solve settings labels = (g.solveResolved settings (g.found labels)).2 := by
  rw [solve, solveLogged, resolveTerminals_eq hashable, if_pos complete]

/-- More terminals are named than a query may have. -/
def TooMany (settings : SolverSettings) (labels : List Value) : Prop :=
  1 ≤ (Value.distinct labels).length ∧ settings.maxTerminals < (Value.distinct labels).length

/-- Two or more terminals are named, and they do not lie in one component. -/
def Apart (g : Graph) (labels : List Value) : Prop :=
  2 ≤ (Value.distinct labels).length ∧ ¬ g.InOneComponent (g.found labels)

/-- A query fails exactly when it should, relaxed or not. If labels are missing, the failure lists them; otherwise,
if there are too many terminals, it tells how many; otherwise, if there are two or more and they do not lie in
one component, the terminals are disconnected; otherwise the answer is a tree of the vertices of the distinct
labels. A failure that would have to show a number of too many digits is replaced by the failure to write that number.
One of the five holds for every query, and nothing else can happen. -/
theorem solve_outcome (built : g.Built) (named : ∀ link ∈ g.links.toList, link.name.isHashable = true)
    (settings : SolverSettings) (hashable : ∀ label ∈ labels, label.isHashable = true) :
    (g.solve settings labels = .error (.terminalsNotFound (g.missing labels)) ↔
      g.missing labels ≠ [] ∧ ∀ label ∈ g.missing labels, label.isWritable = true) ∧
    (g.solve settings labels = .error (.tooManyTerminals (Value.distinct labels).length settings.maxTerminals) ↔
      g.missing labels = [] ∧ TooMany settings labels ∧ Decimal.isWritable settings.maxTerminals = true) ∧
    (g.solve settings labels = .error (.disconnected ((g.found labels).map g.label)) ↔
      g.missing labels = [] ∧ ¬ TooMany settings labels ∧ g.Apart labels ∧
        ∀ v ∈ g.found labels, (g.label v).isWritable = true) ∧
    ((∃ tree, g.solve settings labels = .ok tree ∧
        tree.terminals.map some = (Value.distinct labels).map g.indexOf?) ↔
      g.missing labels = [] ∧ ¬ TooMany settings labels ∧ ¬ g.Apart labels) ∧
    (g.solve settings labels = .error .unwritable ↔
      (g.missing labels ≠ [] ∧ ∃ label ∈ g.missing labels, label.isWritable = false) ∨
      (g.missing labels = [] ∧ TooMany settings labels ∧ Decimal.isWritable settings.maxTerminals = false) ∨
      (g.missing labels = [] ∧ ¬ TooMany settings labels ∧ g.Apart labels ∧
        ∃ v ∈ g.found labels, (g.label v).isWritable = false)) := by
  have shown : (Failure.disconnected ((g.found labels).map g.label)).isWritable =
      (g.found labels).all fun v => (g.label v).isWritable := List.all_map
  have limit : (Failure.tooManyTerminals (Value.distinct labels).length settings.maxTerminals).isWritable =
      Decimal.isWritable settings.maxTerminals := by
    simp only [Failure.isWritable, Failure.shownValues, Value.isWritable, List.all_cons, List.all_nil, Bool.and_true]
  by_cases complete : g.missing labels = []
  · have outcome := solveResolved_cases built.wellFormed (g.lt_size_of_mem_found labels) named settings
    rw [← solve_of_complete settings hashable complete, length_found complete] at outcome
    rcases outcome with ⟨many, failed⟩ | ⟨few, apart, failed⟩ | ⟨few, together, tree, solved, listed, -⟩
    · have many : TooMany settings labels := many
      simp [failed, complete, many, Failure.written_eq_iff, limit]
    · have few : ¬ TooMany settings labels := few
      have apart : g.Apart labels := apart
      simp [failed, complete, few, apart, Failure.written_eq_iff, shown]
    · have few : ¬ TooMany settings labels := few
      have together : ¬ g.Apart labels := together
      have vertices : tree.terminals.map some = (Value.distinct labels).map g.indexOf? := by
        rw [listed, map_some_found complete]
      simp [solved, complete, few, together, vertices]
  · have failed := solve_of_missing settings hashable complete
    simp [failed, complete, Failure.written_eq_iff, Failure.isWritable, Failure.shownValues]

/-- A label that is asked for twice is missing once. -/
theorem solve_outcome_missing : (∀ link ∈ bridged.links.toList, link.name.isHashable = true) ∧
    (∀ label ∈ [.text "z", .text "a", .text "z"], Value.isHashable label = true) ∧
    bridged.solve {} [.text "z", .text "a", .text "z"] = .error (.terminalsNotFound [.text "z"]) := by
  have hashable : ∀ label ∈ [.text "z", .text "a", .text "z"], Value.isHashable label = true := by
    decide +kernel
  have distinct : Value.distinct [.text "z", .text "a", .text "z"] = [.text "z", .text "a"] := by
    simp [Value.distinct, Value.distinctFrom, Value.key]
  have absent : bridged.indexOf? (.text "z") = none := by decide +kernel
  have present : bridged.indexOf? (.text "a") = some 1 := by decide +kernel
  have missing : bridged.missing [.text "z", .text "a", .text "z"] = [.text "z"] := by
    simp [Graph.missing, distinct, absent, present]
  have failed := (solve_outcome built_bridged named_bridged {} hashable).1.mpr
    (by rw [missing]; exact ⟨List.cons_ne_nil _ _, by simp⟩)
  rw [missing] at failed
  exact ⟨named_bridged, hashable, failed⟩

/-- A label of too many digits is missing from a graph without vertices, and the failure does not tell so. -/
theorem solve_unwritable :
    Value.isHashable (.int (10 ^ Decimal.digitLimit)) = true ∧ (Value.int (10 ^ Decimal.digitLimit)).Reflexive ∧
    Graph.empty.missing [.int (10 ^ Decimal.digitLimit)] = [.int (10 ^ Decimal.digitLimit)] ∧
    Graph.empty.solve {} [.int (10 ^ Decimal.digitLimit)] = .error .unwritable ∧
    Failure.unwritable.kind = "ValueError" := by
  have missing : ∀ label, Graph.empty.missing [label] = [label] := fun label => by
    simp [Graph.missing, Value.distinct, Value.distinctFrom, indexOf?, Graph.empty]
  have hashable : ∀ label ∈ [.int (10 ^ Decimal.digitLimit)], Value.isHashable label = true :=
    List.forall_mem_singleton.mpr rfl
  have unshown : (Failure.terminalsNotFound [.int (10 ^ Decimal.digitLimit)]).isWritable = false := by
    simp only [Failure.isWritable, Failure.shownValues, List.all_cons, List.all_nil, Bool.and_true,
      Value.isWritable_large]
  have failed := solve_of_missing {} hashable (by rw [missing]; exact List.cons_ne_nil _ _)
  rw [missing, Failure.written_of_not_isWritable unshown] at failed
  exact ⟨rfl, rfl, missing _, failed, rfl⟩

/-- With relaxed rows, a query for terminals of one component that are not too many answers a minimum tree. -/
theorem solve_minimum (built : g.Built) (named : ∀ link ∈ g.links.toList, link.name.isHashable = true)
    (relaxed : settings.relaxation = true) (hashable : ∀ label ∈ labels, label.isHashable = true)
    (present : ∀ label ∈ labels, g.indexOf? label ≠ none)
    (together : ∀ a ∈ labels, ∀ b ∈ labels, ∀ u v, g.indexOf? a = some u → g.indexOf? b = some v →
    g.simple.Reachable u v)
    (few : (Value.distinct labels).length ≤ settings.maxTerminals) :
    ∃ tree, g.solve settings labels = .ok tree ∧
      g.IsMinimumTree {v | ∃ label ∈ labels, g.indexOf? label = some v} tree := by
  have complete : g.missing labels = [] := by
    rw [missing, List.filter_eq_nil_iff]
    intro label member absent
    exact present label (Value.mem_of_mem_distinct member) (Option.isNone_iff_eq_none.mp absent)
  have component : g.InOneComponent (g.found labels) := by
    intro u first v second
    obtain ⟨a, listed, start⟩ := mem_found_iff.mp first
    obtain ⟨b, other, stop⟩ := mem_found_iff.mp second
    exact together a listed b other u v start stop
  have outcome := solveResolved_cases built.wellFormed (g.lt_size_of_mem_found labels) named settings
  rw [← solve_of_complete settings hashable complete, length_found complete] at outcome
  rcases outcome with ⟨many, -⟩ | ⟨-, apart, -⟩ | ⟨-, -, tree, solved, -, minimum⟩
  · exact absurd many.2 (by omega)
  · exact absurd component apart.2
  · refine ⟨tree, solved, ?_⟩
    have minimum := minimum relaxed
    rwa [show {v | v ∈ g.found labels} = {v | ∃ label ∈ labels, g.indexOf? label = some v} from
      Set.ext fun v => mem_found_iff] at minimum

theorem reachable_bridged : ∀ v < 7, bridged.simple.Reachable 1 v := by
  have linked : ∀ u v : Nat, s(u, v) ∈ bridged.edgeSet ∧ u ≠ v → bridged.simple.Reachable u v :=
    fun u v edge => (simple_adj_iff.mpr edge).reachable
  have bridge := linked 1 2 (by decide +kernel)
  intro v inside
  match v, inside with
  | 0, _ => exact linked 1 0 (by decide +kernel)
  | 1, _ => exact .refl 1
  | 2, _ => exact bridge
  | 3, _ => exact linked 1 3 (by decide +kernel)
  | 4, _ => exact linked 1 4 (by decide +kernel)
  | 5, _ => exact bridge.trans (linked 2 5 (by decide +kernel))
  | 6, _ => exact bridge.trans (linked 2 6 (by decide +kernel))

theorem joined_bridged {u v : Nat} (first : u < bridged.size) (second : v < bridged.size) :
    bridged.simple.Reachable u v := by
  rw [size_bridged] at first second
  exact (reachable_bridged u first).symm.trans (reachable_bridged v second)

/-- A minimum tree of the four terminals has the bridge and one edge for each of them. -/
theorem solve_minimum_bridged : (∀ link ∈ bridged.links.toList, link.name.isHashable = true) ∧
    (∀ label ∈ bridgedTerminals, Value.isHashable label = true ∧ bridged.indexOf? label ≠ none) ∧
    ((Value.distinct bridgedTerminals).length : Int) ≤ ({} : SolverSettings).maxTerminals ∧
    ∃ tree, bridged.solve {} bridgedTerminals = .ok tree ∧ tree.cost = 5 ∧
      bridged.IsMinimumTree {v | ∃ label ∈ bridgedTerminals, bridged.indexOf? label = some v} tree := by
  have hashable : ∀ label ∈ bridgedTerminals, Value.isHashable label = true := by decide +kernel
  have present : ∀ label ∈ bridgedTerminals, bridged.indexOf? label ≠ none := by decide +kernel
  have few : ((Value.distinct bridgedTerminals).length : Int) ≤ ({} : SolverSettings).maxTerminals := by
    decide +kernel
  obtain ⟨tree, solved, minimum⟩ := solve_minimum built_bridged named_bridged rfl hashable present
    (fun _ _ _ _ u v start stop => joined_bridged (indexOf?_spec start).1 (indexOf?_spec stop).1) few
  have cost : (bridged.solve {} bridgedTerminals).toOption.map (·.cost) = some 5 := by decide +kernel
  rw [solved] at cost
  exact ⟨named_bridged, fun label member => ⟨hashable label member, present label member⟩, few, tree, solved,
    Option.some.inj cost, minimum⟩

end Graph

end SteinerTrees
