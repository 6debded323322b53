import SteinerTrees.Algorithm
import SteinerTrees.Proofs.Solver.Query
import SteinerTrees.Proofs.Verdict.Acceptance

/-! # The exact algorithm and the check

The solution that a minimum tree is turned into meets all rules of the check, with the cost of the tree as its
objective. Every other solution that the check accepts joins the terminals by no more edges than its objective,
so that none has a smaller one. -/

namespace SteinerTrees

variable {g : Graph} {s copy : Skeleton} {tree : Tree} {terminals : List Value} {problem solution a : Value}
  {v : Nat} {wanted : Set Nat}

theorem Json.perm_sortByText (values : List Value) : (Json.sortByText values).Perm values := by
  have sorted := (List.mergeSort_perm (values.map fun value => (textKey value, value))
    fun a b => Text.precedes a.1 b.1).map (·.2)
  have second : ((·.2) ∘ fun value => (textKey value, value)) = (id : Value → Value) := rfl
  rwa [List.map_map, second, List.map_id] at sorted

namespace Tree

/-! ## The solution of a tree -/

/-- The labels of the vertices, as a solution lists them. -/
def vertexLabels (tree : Tree) (g : Graph) : List Value := Json.sortByText (tree.vertices.map g.label)

/-- The ends of a link, as a solution lists them. -/
def entry (g : Graph) (link : Link) : Value := .list [g.label link.source, g.label link.target]

/-- The part of a solution that holds the vertices and edges of a tree. -/
def body (tree : Tree) (g : Graph) : Value :=
  .dict [("vertices", .list (tree.vertexLabels g)), ("edges", .list (tree.links.map (entry g)))]

theorem mem_vertexLabels_iff : a ∈ tree.vertexLabels g ↔ ∃ v ∈ tree.vertices, g.label v = a := by
  rw [vertexLabels, (Json.perm_sortByText _).mem_iff, List.mem_map]

theorem length_vertexLabels (tree : Tree) (g : Graph) :
    (tree.vertexLabels g).length = tree.vertices.length := by
  rw [vertexLabels, (Json.perm_sortByText _).length_eq, List.length_map]

/-- A label of a vertex of the tree is among those of its solution. -/
theorem isIn_vertexLabels (found : g.indexOf? a = some v) (member : v ∈ tree.vertices) :
    a.isIn (tree.vertexLabels g) = true :=
  Value.isIn_iff.mpr (List.mem_map.mpr ⟨_, mem_vertexLabels_iff.mpr ⟨v, member, rfl⟩,
    (Graph.indexOf?_spec found).2⟩)

/-! ## Connectors -/

variable (connector : g.IsConnector wanted tree)

include connector

theorem nodup_vertexLabels (valid : g.WellFormed) : ((tree.vertexLabels g).map Value.key).Nodup := by
  rw [vertexLabels, ((Json.perm_sortByText _).map Value.key).nodup_iff, List.map_map]
  apply connector.distinct.map_on
  exact fun u first v second same => valid.eq_of_key_eq (connector.known u first) (connector.known v second) same

theorem asSet_vertexLabels (valid : g.WellFormed) (hashable : ∀ label ∈ g.labels.toList, label.isHashable = true) :
    ((tree.body g).get "vertices" (.list []) >>= Value.asSet) = .ok (tree.vertexLabels g) := by
  refine bind_eq_ok_iff.mpr ⟨.list (tree.vertexLabels g), rfl,
    Value.asSet_eq_ok_iff.mpr ⟨tree.vertexLabels g, rfl, ?_, ?_⟩⟩
  · intro label member
    obtain ⟨v, among, rfl⟩ := mem_vertexLabels_iff.mp member
    exact Graph.isHashable_label hashable (connector.known v among)
  · exact (Value.distinct_eq_self (nodup_vertexLabels connector valid)).symm

/-- The links of a connector are listed as edges of its graph. -/
theorem listed_links (valid : g.WellFormed) (hashable : ∀ label ∈ g.labels.toList, label.isHashable = true) :
    List.Forall₂ (IsListed g (tree.vertexLabels g)) (tree.links.map (entry g)) (tree.links.map Link.pair) := by
  rw [List.forall₂_map_left_iff, List.forall₂_map_right_iff, List.forall₂_same]
  intro link used
  obtain ⟨source, target⟩ := connector.ends link used
  have start := valid.indexOf?_label (connector.known _ source)
  have stop := valid.indexOf?_label (connector.known _ target)
  exact .intro rfl (Graph.isHashable_label hashable (connector.known _ source))
    (Graph.isHashable_label hashable (connector.known _ target)) start stop
    (Graph.mem_edgeSet_of_mem (connector.used link used)) (isIn_vertexLabels start source)
      (isIn_vertexLabels stop target)

/-- A plain graph that copies the vertices and links of a connector is a tree if these are as many as those of one. -/
theorem isTree_of_copies (valid : g.WellFormed)
    (count : tree.vertices ≠ [] → tree.vertices.length = tree.links.length + 1)
    (nodes : copy.nodes = (tree.vertexLabels g).toArray)
    (copies : copy.Copies g (edgesOf tree.links)) (nonempty : copy.size ≠ 0) :
    copy.isConnected = true ∧ copy.isTree = true := by
  have size : copy.size = tree.vertices.length := by
    rw [Skeleton.size, nodes, List.size_toArray, length_vertexLabels]
  have connected : copy.isConnected = true := by
    rw [copies.isConnected_iff (Nat.pos_of_ne_zero nonempty)]
    have place : ∀ i < copy.size, copy.place g i ∈ tree.vertices.toFinset := by
      intro i inside
      have among : copy.node i ∈ tree.vertexLabels g := by
        rw [Skeleton.node_eq inside, ← List.mem_toArray, ← nodes]
        exact Array.getElem_mem inside
      obtain ⟨v, member, same⟩ := mem_vertexLabels_iff.mp among
      rw [List.mem_toFinset, Skeleton.place, ← same, valid.indexOf?_label (connector.known v member)]
      exact member
    exact fun i first j second => connector.joins _ (place i first) _ (place j second)
  refine ⟨connected, ?_⟩
  have some : tree.vertices ≠ [] := by
    rw [← List.length_pos_iff, ← size]
    exact Nat.pos_of_ne_zero nonempty
  rw [Skeleton.isTree, connected, Bool.true_and, beq_iff_eq, ← copies.card_edges, card_edgesOf connector.once,
    size, count some]

omit connector

/-- The solution of a connector of the terminals that has as many links as a tree meets all rules, and its objective is
the number of links. -/
theorem exists_meets (connector : g.IsConnector {v | v ∈ g.found terminals} tree) (valid : g.WellFormed)
    (hashable : ∀ label ∈ g.labels.toList, label.isHashable = true)
    (count : tree.vertices ≠ [] → tree.vertices.length = tree.links.length + 1)
    (mirrors : s.Mirrors g) (complete : g.missing terminals = []) :
    ∃ copy, Solution.Meets s (Value.distinct terminals) (tree.toSolution g) (tree.body g)
      (tree.vertexLabels g) true copy tree.links.length := by
  have listed := listed_links connector valid hashable
  have found : ∀ label ∈ tree.vertexLabels g, ∃ v ∈ tree.vertices, g.indexOf? label = some v := by
    intro label member
    obtain ⟨v, among, rfl⟩ := mem_vertexLabels_iff.mp member
    exact ⟨v, among, valid.indexOf?_label (connector.known v among)⟩
  have known : ∀ label ∈ tree.vertexLabels g, g.indexOf? label ≠ none := by
    intro label member
    obtain ⟨v, -, here⟩ := found label member
    exact Option.ne_none_iff_exists'.mpr ⟨v, here⟩
  obtain ⟨copy, added, nodes, covers⟩ :=
    Solution.covers_of_listed mirrors (nodup_vertexLabels connector valid) known listed
  have judged := isTree_of_copies connector valid count nodes covers.copies
  refine ⟨copy, rfl, asSet_vertexLabels connector valid hashable, ?_, ?_, rfl, ⟨_, _, rfl, rfl, added⟩, ?_⟩
  · intro terminal member
    cases here : g.indexOf? terminal with
    | none =>
      exact absurd (Option.isNone_iff_eq_none.mpr here) (List.filter_eq_nil_iff.mp complete terminal member)
    | some v =>
      exact isIn_vertexLabels here (connector.holds (List.mem_filterMap.mpr ⟨terminal, member, here⟩))
  · intro label member
    obtain ⟨v, -, here⟩ := found label member
    rw [Skeleton.contains, mirrors.indexOf?, here]
    rfl
  · refine Solution.judge_eq_feasible_iff.mpr
      ⟨fun nonempty => (judged nonempty).1, fun _ nonempty => (judged nonempty).2, ?_⟩
    rw [Solution.objective_of_listed rfl rfl rfl rfl listed]
    exact congrArg Except.ok (card_edgesOf connector.once)

/-- The check accepts such a solution. -/
theorem check_eq (connector : g.IsConnector {v | v ∈ g.found terminals} tree) (valid : g.WellFormed)
    (hashable : ∀ label ∈ g.labels.toList, label.isHashable = true)
    (count : tree.vertices ≠ [] → tree.vertices.length = tree.links.length + 1)
    (read : Skeleton.ofInstance problem = .ok s) (mirrors : s.Mirrors g) (complete : g.missing terminals = [])
    (listed : (problem.get "terminals" (.list []) >>= Value.items) = .ok terminals)
    (usable : ∀ terminal ∈ terminals, terminal.isHashable = true) :
    Solution.check problem (tree.toSolution g) = .ok (.feasible tree.links.length) := by
  obtain ⟨query, wanted, items⟩ := bind_eq_ok_iff.mp listed
  have asked : (problem.get "terminals" (.list []) >>= Value.asSet) = .ok (Value.distinct terminals) :=
    bind_eq_ok_iff.mpr ⟨query, wanted, Value.asSet_eq_ok_iff.mpr ⟨terminals, items, usable, rfl⟩⟩
  obtain ⟨copy, meets⟩ := exists_meets connector valid hashable count mirrors complete
  exact meets.check_eq read asked

end Tree

/-! ## The algorithm -/

/-- What a query answers is a minimum tree, and only labels of vertices are asked for. -/
theorem Graph.isMinimumTree_of_solve {settings : SolverSettings} (regular : g.Regular)
    (relaxed : settings.relaxation = true) (solved : g.solve settings terminals = .ok tree) :
    (∀ terminal ∈ terminals, terminal.isHashable = true) ∧
      g.missing terminals = [] ∧ g.IsMinimumTree {v | v ∈ g.found terminals} tree := by
  have hashable : ∀ terminal ∈ terminals, terminal.isHashable = true := by
    rw [solve, solveLogged] at solved
    split at solved
    · rename_i vertices resolved
      obtain ⟨labels, read, -⟩ := bind_eq_ok_iff.mp resolved
      exact (Value.mapM_asLabel_eq_ok_iff.mp read).1
    · cases solved
  have complete : g.missing terminals = [] := by
    by_contra missing
    rw [solve_of_missing settings hashable missing] at solved
    cases solved
  rw [solve_of_complete settings hashable complete] at solved
  rcases solveResolved_cases regular.valid (g.lt_size_of_mem_found terminals) regular.names settings with
    ⟨-, failed⟩ | ⟨-, -, failed⟩ | ⟨-, -, answer, answered, -, minimum⟩
  · cases solved.symm.trans failed
  · cases solved.symm.trans failed
  · cases solved.symm.trans answered
    exact ⟨hashable, complete, minimum relaxed⟩

namespace Algorithm

variable {settings : SolverSettings}

/-- A solution that is returned comes from the tree of the terminals of the instance in its graph. -/
theorem exists_tree_of_returned (returned : ((exact settings).solve problem).2 = .returned solution) :
    ∃ g terminals tree, Graph.ofInstance problem = .ok g ∧
      (problem.get "terminals" (.list []) >>= Value.items) = .ok terminals ∧
      g.solve settings terminals = .ok tree ∧
      tree.toSolution g = solution := by
  change (solveExactly settings problem).2 = .returned solution at returned
  rw [solveExactly] at returned
  split at returned
  · cases returned
  · rename_i g loaded
    dsimp only at returned
    split at returned
    · cases returned
    · rename_i terminals asked
      cases solved : g.solve settings terminals with
      | error failure =>
        rw [Graph.solve] at solved
        simp only [solved] at returned
        cases returned
      | ok tree =>
        rw [Graph.solve] at solved
        simp only [solved] at returned
        exact ⟨g, terminals, tree, loaded, asked, by rw [Graph.solve, solved], Attempt.returned.inj returned⟩

/-- On a clean instance, the check accepts a solution that the exact algorithm returns. The number of edges found,
the objective and the cost that the solution reports are the same, and no solution that the check accepts has a
smaller objective. -/
theorem exact_agrees (relaxed : settings.relaxation = true) (clean : problem.Clean)
    (returned : ((exact settings).solve problem).2 = .returned solution) :
    ∃ cost : Nat, Solution.check problem solution = .ok (.feasible cost) ∧
      Solution.objective solution = .ok cost ∧
      (solution.field "metadata" >>= fun metadata => metadata.field "cost") = .ok (.int cost) ∧
      ∀ other size, Solution.check problem other = .ok (.feasible size) →
        Solution.objective other = .ok size ∧ cost ≤ size := by
  obtain ⟨g, terminals, tree, loaded, listed, solved, rfl⟩ := exists_tree_of_returned returned
  obtain ⟨regular, s, read, mirrors⟩ := Skeleton.Mirrors.ofInstance clean loaded
  obtain ⟨hashable, complete, minimum⟩ := Graph.isMinimumTree_of_solve regular relaxed solved
  have asked : (problem.get "terminals" (.list []) >>= Value.asSet) = .ok (Value.distinct terminals) := by
    obtain ⟨query, wanted, items⟩ := bind_eq_ok_iff.mp listed
    exact bind_eq_ok_iff.mpr ⟨query, wanted, Value.asSet_eq_ok_iff.mpr ⟨terminals, items, hashable, rfl⟩⟩
  obtain ⟨copy, meets⟩ := Tree.exists_meets minimum.isConnector regular.valid regular.labels
    (minimum.length_vertices regular.valid) mirrors complete
  refine ⟨tree.links.length, ?_, meets.objective, ?_, ?_⟩
  · exact meets.check_eq read asked
  · rw [← minimum.cost]
    rfl
  · intro other size accepted
    obtain ⟨body, vertices, listed, copy, meets⟩ := Solution.exists_meets_of_check read asked accepted
    -- The other solution need not be a tree: if it lists no edges, a spanning tree of it is compared.
    obtain ⟨few, subset, count, joined⟩ := meets.exists_few mirrors regular.valid
    refine ⟨meets.objective, (minimum.length_links_le regular.valid subset ?_).trans count⟩
    intro u first v second
    obtain ⟨a, left, start⟩ := List.mem_filterMap.mp first
    obtain ⟨b, right, stop⟩ := List.mem_filterMap.mp second
    exact joined a left b right u v start stop

/-- An instance of which all labels are texts. -/
def instanceOf (nodes : List String) (edges : List (String × String)) (terminals : List String) : Value :=
  .dict [("nodes", .list (nodes.map .text)),
    ("edges", .list (edges.map fun (source, target) => .dict [("source", .text source), ("target", .text target)])),
    ("terminals", .list (terminals.map .text))]

theorem clean_instanceOf (nodes : List String) (edges : List (String × String)) (terminals : List String) :
    (instanceOf nodes edges terminals).Clean := by
  refine ⟨?_, ?_, ?_, ?_⟩
  · intro label member
    obtain ⟨node, -, rfl⟩ := List.mem_map.mp member
    exact .text node
  all_goals
    intro entry member label found
    obtain ⟨⟨source, target⟩, -, rfl⟩ := List.mem_map.mp member
    cases found
  · exact .text source
  · exact .text target
  · rfl

/-- Four terminals on the two ends of a bridge, with a node in front of it. -/
def bridgedInstance : Value :=
  instanceOf ["x", "a", "b", "t1", "t2", "t3", "t4"] Graph.bridgedEdges ["t1", "t2", "t3", "t4"]

theorem exact_agrees_bridged : ∃ solution, ((exact {}).solve bridgedInstance).2 = .returned solution ∧
    Solution.check bridgedInstance solution = .ok (.feasible 5) ∧ Solution.objective solution = .ok 5 ∧
    (solution.field "metadata" >>= fun metadata => metadata.field "cost") = .ok (.int 5) ∧
    ∀ other size, Solution.check bridgedInstance other = .ok (.feasible size) →
      Solution.objective other = .ok size ∧ 5 ≤ size := by
  have ended : (match ((exact {}).solve bridgedInstance).2 with
      | .returned solution => (Solution.objective solution).toOption | _ => none) = some 5 := by decide +kernel
  split at ended
  · rename_i solution returned
    obtain ⟨cost, checked, objective, told, least⟩ := exact_agrees rfl (clean_instanceOf _ _ _) returned
    rw [objective] at ended
    obtain rfl : cost = 5 := Option.some.inj ended
    exact ⟨solution, returned, checked, objective, told, least⟩
  · cases ended

end Algorithm

end SteinerTrees
