import SteinerTrees.Proofs.Graph.Distance
import SteinerTrees.Proofs.Solver.Outcome

/-! # Marks certify costs

A cell can be written by a seed, by several merges and by a move, while other cells already point to it. In the finished
table each mark still says how the final cost comes about, out of other final costs. So following the marks from a
known cell ends with a connected part of the graph that has no more links than the cell costs. -/

namespace SteinerTrees

variable {g : Graph} {relaxation : Bool} {terminals : List Nat} {t : Table} {mask v : Nat}

/-- What the mark of a cell says of its cost is so. -/
structure Table.Certified (t : Table) (g : Graph) (terminals : List Nat) (mask v : Nat) : Prop where
  unset : (t.entry g.size mask v).mark = .unset ↔ (t.entry g.size mask v).cost = none
  direct : (t.entry g.size mask v).mark = .direct →
    ∃ i, mask = 2 ^ i ∧ terminals[i]? = some (t.entry g.size mask v).arg ∧
      ∃ hops : Nat, (t.entry g.size mask v).cost = some hops ∧ g.distance (t.entry g.size mask v).arg v = hops
  merge : (t.entry g.size mask v).mark = .merge → IsPart mask (t.entry g.size mask v).arg ∧
    ∃ a b, (t.entry g.size (t.entry g.size mask v).arg v).cost = some a ∧
      (t.entry g.size (mask ^^^ (t.entry g.size mask v).arg) v).cost = some b ∧
      (t.entry g.size mask v).cost = some (a + b)
  move : (t.entry g.size mask v).mark = .move → g.simple.Adj v (t.entry g.size mask v).arg ∧
    ∃ c, (t.entry g.size mask (t.entry g.size mask v).arg).cost = some c ∧
      (t.entry g.size mask v).cost = some (c + 1)

/-- A justified cell is certified by its mark. -/
theorem Table.FilledTo.certified (filled : t.Filled relaxation g.adjacency terminals) (valid : g.WellFormed)
    (known : ∀ terminal ∈ terminals, terminal < g.size) (below : mask < 2 ^ terminals.length) (inside : v < g.size) :
    t.Certified g terminals mask v := by
  have justified := filled.justified mask below v (g.adjacency_size ▸ inside)
  rw [g.adjacency_size] at justified
  generalize taken : t.entry g.size mask v = cell at justified
  cases justified with
  | unset => constructor <;> simp [taken]
  | @direct i terminal visit single found reached =>
    have source := known terminal (List.mem_of_getElem? found)
    constructor
    case direct =>
      intro _
      rw [taken]
      exact ⟨i, single, found, visit.hops, rfl, valid.distance_of_visit source reached⟩
    all_goals simp [taken]
  | merge part splits =>
    rw [g.adjacency_size] at splits
    constructor
    case merge =>
      intro _
      rw [taken]
      exact ⟨part, _, _, splits.1, splits.2, rfl⟩
    all_goals simp [taken]
  | @move u c asked inner neighbor before =>
    rw [g.adjacency_size] at before
    have differ : v ≠ u := by
      rintro rfl
      rw [taken] at before
      have same := Option.some.inj before
      omega
    constructor
    case move =>
      intro _
      rw [taken]
      exact ⟨(Graph.simple_adj_iff.mpr ⟨valid.mem_adjacency_iff.mp neighbor, differ.symm⟩).symm, c, before, rfl⟩
    all_goals simp [taken]

/-- In every finished table, relaxed or not, the marks certify the costs. Whatever is read off a known cell connects the
vertex and the terminals of the set, with no more links than the cost. -/
theorem Graph.certified_costTable (built : g.Built) (known : ∀ terminal ∈ terminals, terminal < g.size)
    (relaxation : Bool) : ∀ mask, mask ≠ 0 → mask < 2 ^ terminals.length → ∀ v < g.size,
      (g.costTable relaxation terminals).Certified g terminals mask v ∧
      ((∀ link ∈ g.links.toList, link.name.isHashable = true) →
        ∀ c, ((g.costTable relaxation terminals).entry g.size mask v).cost = some c →
          ∃ tree, (g.costTable relaxation terminals).tree g terminals mask v = .ok tree ∧
            g.IsConnector (insert v (members terminals mask)) tree ∧ (tree.links.length : Int) ≤ c) := by
  intro mask nonempty below v inside
  have valid := built.wellFormed
  have filled := g.filled_costTable relaxation terminals
  refine ⟨filled.certified valid known below inside, fun named c cost => ?_⟩
  rw [← g.adjacency_size] at cost
  obtain ⟨tree, read, reads⟩ := filled.exists_tree valid known named nonempty below inside cost
  exact ⟨tree, read, reads.isConnector, reads.count⟩

/-- All four terminals are merged at one end of the bridge, which those of the other end reach by a move across it. -/
theorem Graph.certified_costTable_bridged : (∀ terminal ∈ [3, 4, 5, 6], terminal < bridged.size) ∧
    IsPart 15 ((bridged.costTable true [3, 4, 5, 6]).entry bridged.size 15 1).arg ∧
    bridged.simple.Adj 1 ((bridged.costTable true [3, 4, 5, 6]).entry bridged.size 12 1).arg ∧
    ∃ tree, (bridged.costTable true [3, 4, 5, 6]).tree bridged [3, 4, 5, 6] 15 1 = .ok tree ∧
      bridged.IsConnector (insert 1 (members [3, 4, 5, 6] 15)) tree ∧ (tree.links.length : Int) ≤ 5 := by
  have known : ∀ terminal ∈ [3, 4, 5, 6], terminal < bridged.size := by decide +kernel
  have inside : 1 < bridged.size := by decide +kernel
  have merged : ((bridged.costTable true [3, 4, 5, 6]).entry bridged.size 15 1).mark = .merge := by decide +kernel
  have moved : ((bridged.costTable true [3, 4, 5, 6]).entry bridged.size 12 1).mark = .move := by decide +kernel
  have cost : ((bridged.costTable true [3, 4, 5, 6]).entry bridged.size 15 1).cost = some 5 := by decide +kernel
  obtain ⟨whole, read⟩ := certified_costTable built_bridged known true 15 (by decide) (by decide) 1 inside
  obtain ⟨half, -⟩ := certified_costTable built_bridged known true 12 (by decide) (by decide) 1 inside
  exact ⟨known, (whole.merge merged).1, (half.move moved).1, read named_bridged 5 cost⟩

end SteinerTrees
