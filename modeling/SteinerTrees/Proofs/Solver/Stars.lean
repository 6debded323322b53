import SteinerTrees.Proofs.Graph.Distance
import SteinerTrees.Proofs.Solver.Hubs
import Mathlib.Algebra.BigOperators.Fin

/-! # Stars

Without relaxed rows a set of terminals is only merged at one vertex, so a cell costs the sum of the distances from its
terminals to its vertex: a star of shortest paths. The hub is the first vertex of the least star. -/

namespace SteinerTrees

open Table

variable {g : Graph} {terminals : List Nat} {t : Table} {mask sub terminal hub i v : Nat} {c : Int}

namespace Graph

/-- The steps of all shortest paths from some terminals to a vertex. -/
noncomputable def starCost (g : Graph) (terminals : List Nat) (v : Nat) : ℕ∞ := (terminals.map (g.distance · v)).sum

/-- The steps of the paths from the terminals of a set. -/
noncomputable def starOf (g : Graph) (terminals : List Nat) (mask v : Nat) : ℕ∞ :=
  ∑ i : Fin terminals.length, if mask.testBit i then g.distance terminals[i] v else 0

theorem starOf_two_pow (found : terminals[i]? = some terminal) :
    g.starOf terminals (2 ^ i) v = g.distance terminal v := by
  obtain ⟨inside, rfl⟩ := List.getElem?_eq_some_iff.mp found
  rw [starOf, Finset.sum_eq_single ⟨i, inside⟩]
  · simp
  · intro j _ other
    have differ : i ≠ j := fun same => other (Fin.ext same.symm)
    simp [differ]
  · exact fun absent => absurd (Finset.mem_univ _) absent

/-- A set has the paths of a part and those of the rest. -/
theorem starOf_rest (part : IsPart mask sub) :
    g.starOf terminals mask v = g.starOf terminals sub v + g.starOf terminals (mask ^^^ sub) v := by
  rw [starOf, starOf, starOf, ← Finset.sum_add_distrib]
  refine Finset.sum_congr rfl fun i _ => ?_
  have within := part.within i
  rw [Nat.testBit_xor]
  cases taken : sub.testBit i with
  | true => simp [within taken]
  | false => simp

theorem starOf_fullMask (terminals : List Nat) :
    g.starOf terminals (fullMask terminals) v = g.starCost terminals v := by
  rw [starCost, ← Fin.sum_univ_fun_getElem, starOf, fullMask_eq]
  refine Finset.sum_congr rfl fun i _ => ?_
  rw [Nat.testBit_two_pow_sub_one, decide_eq_true i.isLt, if_pos rfl]
  rfl

end Graph

namespace Table.FilledTo

variable (filled : t.Filled false g.adjacency terminals)

include filled

/-- Without relaxed rows nothing is moved. -/
theorem mark_ne_move (below : mask < 2 ^ terminals.length) (inside : v < g.adjacency.size) :
    (t.entry g.adjacency.size mask v).mark ≠ .move := by
  have justified := filled.justified mask below v inside
  intro moved
  generalize t.entry g.adjacency.size mask v = cell at justified moved
  cases justified with
  | unset | direct | merge => cases moved
  | move asked => cases asked

/-- A known cost is that of a star. -/
theorem starOf_eq (valid : g.WellFormed) (known : ∀ terminal ∈ terminals, terminal < g.size)
    (below : mask < 2 ^ terminals.length) (inside : v < g.size) (cost : t.cost g mask v = some c) :
    ∃ star : Nat, c = star ∧ g.starOf terminals mask v = star := by
  refine filled.induction (P := fun mask v c => ∃ star : Nat, c = star ∧ g.starOf terminals mask v = star)
    ?direct ?merge ?move below (g.adjacency_size ▸ inside) cost
  case direct =>
    intro i terminal v visit found _ reached _
    refine ⟨visit.hops, rfl, ?_⟩
    rw [Graph.starOf_two_pow found, valid.distance_of_visit (known terminal (List.mem_of_getElem? found)) reached]
  case merge =>
    rintro mask sub v _ _ - - part - ⟨a, rfl, near⟩ ⟨b, rfl, far⟩
    exact ⟨a + b, by push_cast; rfl, by rw [Graph.starOf_rest part, near, far, Nat.cast_add]⟩
  case move =>
    intro mask u v c below _ inner _ taken _ _
    exact absurd (congrArg Cell.mark taken) (filled.mark_ne_move below inner)

end Table.FilledTo

namespace Graph

theorem distance_le_starCost (member : terminal ∈ terminals) (v : Nat) :
    g.distance terminal v ≤ g.starCost terminals v :=
  List.single_le_sum (fun _ _ => zero_le) _ (List.mem_map_of_mem member)

theorem exists_starCost (valid : g.WellFormed) (known : ∀ terminal ∈ terminals, terminal < g.size) (inside : v < g.size)
    (cost : (g.costTable false terminals).cost g (fullMask terminals) v = some c) :
    ∃ star : Nat, c = star ∧ g.starCost terminals v = star := by
  obtain ⟨star, same, total⟩ :=
    (g.filled_costTable false terminals).starOf_eq valid known (fullMask_lt terminals) inside cost
  exact ⟨star, same, starOf_fullMask terminals ▸ total⟩

/-- The cost of a vertex is that of its star. -/
theorem cost_eq_some_iff (valid : g.WellFormed) (known : ∀ terminal ∈ terminals, terminal < g.size)
    (nonempty : terminals ≠ []) (inside : v < g.size) {star : Nat} :
    (g.costTable false terminals).cost g (fullMask terminals) v = some (star : Int) ↔
      g.starCost terminals v = star := by
  constructor
  · intro cost
    obtain ⟨size, same, total⟩ := exists_starCost valid known inside cost
    rw [total, Int.ofNat_inj.mp same]
  · intro total
    have joined : ∀ u ∈ terminals, Joined g.edgeSet v u := by
      intro u member
      have finite := ne_top_of_le_ne_top (total ▸ ENat.natCast_ne_top star) (distance_le_starCost member v)
      exact (distance_ne_top_iff.mp finite).symm
    obtain ⟨c, cost⟩ := (exists_cost_fullMask_iff false valid known nonempty inside).mpr joined
    obtain ⟨size, rfl, same⟩ := exists_starCost valid known inside cost
    rw [cost, ENat.natCast_inj.mp (same.symm.trans total)]

/-- Without relaxed rows the hub is the first vertex of the least star. -/
theorem IsHub.star (isHub : g.IsHub false terminals hub c) (valid : g.WellFormed)
    (known : ∀ terminal ∈ terminals, terminal < g.size) (nonempty : terminals ≠ []) :
    ∃ star : Nat, c = star ∧ g.starCost terminals hub = star ∧
      IsLeast {v | v < g.size ∧ ∀ w < g.size, g.starCost terminals v ≤ g.starCost terminals w} hub := by
  obtain ⟨star, rfl, same⟩ := exists_starCost valid known isHub.inside isHub.cost
  refine ⟨star, rfl, same, ⟨isHub.inside, fun w inside => ?_⟩, fun v ⟨inside, least⟩ => ?_⟩
  · cases other : g.starCost terminals w with
    | top => exact le_top
    | coe size =>
      have cost := (cost_eq_some_iff valid known nonempty inside).mpr other
      rw [same]
      exact Nat.cast_le.mpr (Int.ofNat_le.mp (isHub.least w inside size cost))
  · by_contra earlier
    have enough := least hub isHub.inside
    rw [same] at enough
    obtain ⟨size, other⟩ := ENat.ne_top_iff_exists.mp (ne_top_of_le_ne_top (ENat.natCast_ne_top star) enough)
    have cost := (cost_eq_some_iff valid known nonempty inside).mpr other.symm
    have less := isHub.first v (not_le.mp earlier) size cost
    rw [← other, Nat.cast_le] at enough
    omega

end Graph

end SteinerTrees
