import SteinerTrees.Proofs.Solver.StarTrees
import SteinerTrees.Proofs.Verdict.Agreement

/-! # Stars and the check

A query without relaxed rows is answered with the first vertex of the least star and with the paths to it. They are a
tree that holds the terminals, so the check accepts its solution for every instance that describes the graph. -/

namespace SteinerTrees.Graph

variable {g : Graph} {settings : SolverSettings} {labels : List Value}

/-- Without relaxed rows, a query is answered with the cost of the least star of the terminals, with the first vertex
that has such a star as its hub, and with exactly the vertices and edges of the paths from the terminals to the hub.
These are a tree with at most as many edges as it costs. The check accepts its solution for the instance of the graph,
unless a label is `null`, and for every clean instance from which the graph is read. -/
theorem solve_star (built : g.Built) (named : ∀ link ∈ g.links.toList, link.name.isHashable = true)
    (plain : settings.relaxation = false) (answerable : g.Answerable settings labels) : ∃ hub star : Nat,
      IsLeast {v | v < g.size ∧ ∀ w < g.size, g.starCost (g.found labels) v ≤ g.starCost (g.found labels) w} hub ∧
      g.starCost (g.found labels) hub = star ∧
      ∃ tree, g.solve settings labels = .ok tree ∧
        tree.cost = star ∧ tree.hub = some hub ∧ g.IsStar (g.found labels) hub tree ∧
        g.IsConnector {v | v ∈ g.found labels} tree ∧
        (g.part {v | v ∈ tree.vertices} (edgesOf tree.links)).coe.IsTree ∧
        tree.vertices.length = tree.links.length + 1 ∧ tree.links.length ≤ star ∧
        ((∀ label ∈ g.labels.toList, label ≠ .null) →
          Solution.check (g.toInstance labels) (tree.toSolution g) = .ok (.feasible tree.links.length)) ∧
        ∀ problem : Value, problem.Clean → Graph.ofInstance problem = .ok g →
          (problem.get "terminals" (.list []) >>= Value.items) = .ok labels →
          Solution.check problem (tree.toSolution g) = .ok (.feasible tree.links.length) := by
  have valid := built.wellFormed
  have known := g.lt_size_of_mem_found labels
  have nonempty := answerable.found_ne_nil
  obtain ⟨hub, c, isHub, tree, solved, isRead⟩ := answerable.exists_hub valid named
  rw [plain] at isHub isRead
  obtain ⟨star, rfl, total, first⟩ := isHub.star valid known nonempty
  have reads := isRead.reads
  have joins := reads.isConnector
  have isStar := isRead.isStar valid known nonempty isHub.inside
  obtain ⟨isTree, count⟩ := isStar.isTree valid known joins reads.branch.rooted
  have connector : g.IsConnector {v | v ∈ g.found labels} tree :=
    { joins with holds := members_fullMask (g.found labels) ▸ reads.holds }
  have accepted : ∀ {problem : Value} {s : Skeleton}, Skeleton.ofInstance problem = .ok s → s.Mirrors g →
      (problem.get "terminals" (.list []) >>= Value.items) = .ok labels →
      Solution.check problem (tree.toSolution g) = .ok (.feasible tree.links.length) :=
    fun read mirrors listed => Tree.check_eq connector valid built.hashable (fun _ => count) read mirrors
      answerable.complete listed answerable.hashable
  refine ⟨hub, star, first, total, tree, solved, isRead.cost_eq, reads.hub, isStar, connector, isTree, count,
    Int.ofNat_le.mp reads.count, fun present => ?_, fun problem clean loaded listed => ?_⟩
  · obtain ⟨s, read, mirrors⟩ := Skeleton.Mirrors.toInstance valid built.hashable present labels
    exact accepted read mirrors rfl
  · obtain ⟨-, s, read, mirrors⟩ := Skeleton.Mirrors.ofInstance clean loaded
    exact accepted read mirrors listed

/-- The first center is an end of the bridge. The star costs one more than its tree has edges, and the check accepts the
tree. -/
theorem solve_star_bridged : bridged.Answerable { relaxation := false } bridgedTerminals ∧
    IsLeast {v | v < bridged.size ∧ ∀ w < bridged.size, bridged.starCost (bridged.found bridgedTerminals) v ≤
      bridged.starCost (bridged.found bridgedTerminals) w} 1 ∧
    ∃ tree, bridged.solve { relaxation := false } bridgedTerminals = .ok tree ∧ tree.cost = 6 ∧
      bridged.IsStar (bridged.found bridgedTerminals) 1 tree ∧ tree.vertices.length = 6 ∧ tree.links.length = 5 ∧
      Solution.check (bridged.toInstance bridgedTerminals) (tree.toSolution bridged) = .ok (.feasible 5) := by
  obtain ⟨hub, star, first, -, tree, solved, -, found, isStar, -, -, count, -, accepted, -⟩ :=
    solve_star built_bridged named_bridged rfl (answerable_bridged false)
  have present : ∀ label ∈ bridged.labels.toList, label ≠ .null := by
    have differ : ∀ label ∈ bridged.labels.toList, label.same .null = false := by decide +kernel
    intro label member null
    exact Bool.false_ne_true ((differ label member).symm.trans (Value.same_null_iff.mpr null))
  have values : (bridged.solve { relaxation := false } bridgedTerminals).toOption.map
      (fun tree => (tree.hub, tree.cost, tree.links.length)) = some (some 1, 6, 5) := by decide +kernel
  rw [solved] at values
  obtain ⟨hubs, values⟩ := Prod.mk.inj (Option.some.inj values)
  obtain ⟨six, five⟩ := Prod.mk.inj values
  obtain rfl : 1 = hub := Option.some.inj (hubs.symm.trans found)
  have checked := accepted present
  rw [five] at checked count
  exact ⟨answerable_bridged false, first, tree, solved, six, isStar, count, five, checked⟩

end SteinerTrees.Graph
