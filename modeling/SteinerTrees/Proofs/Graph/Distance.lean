import SteinerTrees.Proofs.Graph.Subgraph
import Mathlib.Combinatorics.SimpleGraph.Metric

/-! # Distances

The distance of two vertices is the number of steps of a shortest walk between them; it is infinite if there is none.
A search counts distances, and edges that join two vertices are at least as many as their distance. -/

namespace SteinerTrees.Graph

open Hops

variable {g : Graph} {edges : Edges} {u v w steps : Nat} {visit : Visit}

/-- The fewest steps from one vertex to another. -/
noncomputable abbrev distance (g : Graph) (u v : Nat) : ℕ∞ := g.simple.edist u v

theorem distance_le_one (edge : s(u, v) ∈ g.edgeSet) : g.distance u v ≤ 1 := by
  rw [distance, SimpleGraph.edist_le_one_iff_adj_or_eq, simple_adj_iff]
  by_cases loop : u = v
  · exact .inr loop
  · exact .inl ⟨edge, loop⟩

/-- A walk of one more step. -/
theorem distance_le_succ (near : g.distance u v ≤ steps) (edge : s(v, w) ∈ g.edgeSet) :
    g.distance u w ≤ (steps + 1 : Nat) := by
  calc g.distance u w ≤ g.distance u v + g.distance v w := SimpleGraph.edist_triangle
    _ ≤ steps + 1 := add_le_add near (distance_le_one edge)
    _ = (steps + 1 : Nat) := by push_cast; rfl

theorem distance_ne_top_iff : g.distance u v ≠ ⊤ ↔ Joined g.edgeSet u v := by
  rw [distance, SimpleGraph.edist_ne_top_iff_reachable, simple_reachable_iff]

/-- Edges that join two vertices are no fewer than the steps between them. -/
theorem distance_le_card (subset : edges ⊆ g.edgeSet) (joined : Joined edges u v) : g.distance u v ≤ edges.card := by
  induction size : edges.card using Nat.strongRecOn generalizing edges u with
  | _ size fewer =>
    subst size
    by_cases same : u = v
    · rw [same, distance, SimpleGraph.edist_self]
      exact zero_le
    · obtain ⟨w, edge⟩ := joined.exists_edge same
      obtain ⟨near, far, nearSubset, farSubset, count, sides⟩ := Joined.exists_sides edge
      rcases sides v joined with here | beyond
      · have short := fewer near.card (by omega) (nearSubset.trans subset) here rfl
        exact short.trans (Nat.cast_le.mpr (by omega))
      · have short := fewer far.card (by omega) (farSubset.trans subset) beyond rfl
        calc g.distance u v ≤ g.distance u w + g.distance w v := SimpleGraph.edist_triangle
          _ ≤ 1 + far.card := add_le_add (distance_le_one (subset edge)) short
          _ ≤ edges.card := by
            rw [← Nat.cast_one, ← Nat.cast_add]
            exact Nat.cast_le.mpr (by omega)

/-! ## Distances and searches -/

namespace WellFormed

variable (valid : g.WellFormed)

include valid

theorem distance_le_of_walk (walk : Walk g.adjacency u steps v) : g.distance u v ≤ steps := by
  induction walk with
  | start => exact SimpleGraph.edist_self.le
  | step _ neighbor ih => exact distance_le_succ ih (valid.mem_adjacency_iff.mp neighbor)

/-- A walk of the simple graph continues a walk along neighbours. -/
theorem walk_append (walk : Walk g.adjacency u steps v) (more : g.simple.Walk v w) :
    Walk g.adjacency u (steps + more.length) w := by
  induction more generalizing steps with
  | nil => exact walk
  | cons adjacent rest ih =>
    rw [SimpleGraph.Walk.length_cons, Nat.add_comm rest.length, ← Nat.add_assoc]
    exact ih (walk.step (valid.mem_adjacency_iff.mpr (simple_adj_iff.mp adjacent).1))

/-- The hops of a visit are the distance from the source. -/
theorem distance_of_visit (inside : u < g.size) (reached : visit? (explore g.adjacency u) v = some visit) :
    g.distance u v = visit.hops := by
  have source : u < g.adjacency.size := g.adjacency_size ▸ inside
  apply le_antisymm (valid.distance_le_of_walk (walk_of_visit valid.bounded source reached))
  refine le_iInf fun walk => ?_
  obtain ⟨other, again, fewer⟩ := exists_visit_of_walk valid.bounded source (valid.walk_append .start walk)
  rw [reached] at again
  cases again
  exact Nat.cast_le.mpr (by omega)

end WellFormed

end SteinerTrees.Graph
