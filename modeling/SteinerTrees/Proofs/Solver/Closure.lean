import Mathlib.Order.Bounds.Basic
import SteinerTrees.Proofs.Solver.Queue

/-! # The closure of a row

Whatever costs a row starts with, and whichever vertices are neighbours of which, after relaxing a vertex costs what
the cheapest walk to it costs: the cost that its first vertex had, and one for each step. A vertex that got cheaper
names the vertex before it on such a walk; of several, the one of lowest cost, and of these the one of lowest index,
which is the order in which vertices are settled. All other cells stay as they were. -/

namespace SteinerTrees

open Hops

variable {adjacency : Adjacency} {before row : Array Cell} {t : Table} {vs : List Nat} {base steps u v w : Nat}
  {initial c d : Int}

/-- What walks to a vertex cost: the cost of their first vertex, and one for each step. -/
def walkCosts (adjacency : Adjacency) (row : Array Cell) (w : Nat) : Set Int :=
  {c | ∃ u initial, ∃ steps : Nat, (row.getD u {}).cost = some initial ∧ Walk adjacency u steps w ∧ c = initial + steps}

/-- The first of the vertices of which `w` is a neighbour, in the order of their costs, and of their indices where costs
are equal. -/
structure IsNearest (adjacency : Adjacency) (row : Array Cell) (w u : Nat) (c : Int) : Prop where
  neighbor : w ∈ adjacency.getD u []
  cost : (row.getD u {}).cost = some c
  first : ∀ v d, w ∈ adjacency.getD v [] → (row.getD v {}).cost = some d → c < d ∨ c = d ∧ u ≤ v

/-- The cost of a vertex is known, and less than it was. -/
def IsLowered (before row : Array Cell) (w : Nat) : Prop :=
  ∃ c, (row.getD w {}).cost = some c ∧ ¬ AtMost c (before.getD w {}).cost

/-- A row of least costs. Where a cost is less than it was, the mark tells the step by which it comes about. -/
structure IsClosure (adjacency : Adjacency) (before row : Array Cell) : Prop where
  size : row.size = before.size
  reached : ∀ w < row.size, ∀ c, (row.getD w {}).cost = some c ↔ IsLeast (walkCosts adjacency before w) c
  unreached : ∀ w < row.size, (row.getD w {}).cost = none ↔ walkCosts adjacency before w = ∅
  lowered : ∀ w < row.size, IsLowered before row w →
    ∃ u c, row.getD w {} = ⟨some (c + 1), .move, u⟩ ∧ IsNearest adjacency row w u c
  kept : ∀ w < row.size, ¬ IsLowered before row w → row.getD w {} = before.getD w {}

/-! ## While vertices are settled -/

/-- What else holds while vertices are settled in the order of their indices: costs come from walks, and a cell that was
lowered names the first of the vertices that give its cost. -/
structure Closing (adjacency : Adjacency) (before row : Array Cell) (unsettled : List Nat) : Prop
    extends Settling adjacency before row unsettled where
  ascending : unsettled.Pairwise (· < ·)
  walks : ∀ v c, (row.getD v {}).cost = some c → c ∈ walkCosts adjacency before v
  first : ∀ v < row.size, ∀ u c, row.getD v {} = ⟨some (c + 1), .move, u⟩ → ¬ AtMost (c + 1) (before.getD v {}).cost →
    ∀ w < u, v ∈ adjacency.getD w [] → (row.getD w {}).cost ≠ some c

namespace Closing

theorem start (adjacency : Adjacency) (row : Array Cell) : Closing adjacency row row (List.range row.size) where
  toSettling := .start adjacency row
  ascending := List.pairwise_lt_range
  walks v c known := ⟨v, c, 0, known, .start, by simp⟩
  first v _ u c same dearer := absurd (by rw [same]; exact atMost_some_iff.mpr le_rfl) dearer

/-- Settling a cheapest vertex, the first of several, keeps what holds while vertices are settled. -/
theorem next (closing : Closing adjacency before row vs) (chosen : cheapest? row vs = some u) :
    Closing adjacency before (relaxFrom adjacency row u) (vs.erase u) := by
  obtain ⟨member, d, known, -⟩ := cheapest?_eq_some chosen
  have distinct : vs.Nodup := closing.ascending.imp Nat.ne_of_lt
  have settling := closing.toSettling.next distinct chosen
  have relaxed := relaxed_relaxFrom adjacency known
  obtain ⟨size, cells, -⟩ := relaxed
  refine ⟨settling, closing.ascending.sublist List.erase_sublist, ?_, ?_⟩
  · intro v c cost
    rcases cells v with kept | ⟨neighbor, -, -, set⟩
    · exact closing.walks v c (kept ▸ cost)
    · obtain ⟨x, initial, steps, begun, walk, total⟩ := closing.walks u d known
      rw [set] at cost
      cases cost
      exact ⟨x, initial, steps + 1, begun, walk.step neighbor, by push_cast; omega⟩
  · intro v inside x c same dearer w earlier neighbor cost
    rw [size] at inside
    rcases cells v with kept | ⟨-, -, above, set⟩
    · rw [kept] at same
      rcases cells w with old | ⟨-, -, -, set⟩
      · exact closing.first v inside x c same dearer w earlier neighbor (old ▸ cost)
      · -- What is lowered now costs more than `x`, which was settled before.
        rcases closing.origin v inside with untouched | ⟨y, e, below, outside, -, at_y, moved, -⟩
        · exact dearer (by rw [← untouched, same]; exact atMost_some_iff.mpr le_rfl)
        · rw [same, Cell.mk.injEq, Option.some.injEq] at moved
          obtain ⟨f, other, le⟩ := closing.ordered y below outside u member d known
          cases at_y.symm.trans other
          rw [set] at cost
          cases cost
          omega
    · rw [set, Cell.mk.injEq, Option.some.injEq] at same
      obtain ⟨rfl, rfl⟩ : d = c ∧ u = x := ⟨by omega, same.2.2⟩
      rcases cells w with old | ⟨-, -, -, set⟩
      · rw [old] at cost
        by_cases open_ : w ∈ vs
        · obtain ⟨e, less, other⟩ := cheapest?_first closing.ascending chosen w open_ earlier d cost
          cases known.symm.trans other
          exact lt_irrefl _ less
        · exact above (closing.closed w (lt_size_of_known cost) open_ d cost v neighbor inside)
      · rw [set] at cost
        have equal := Option.some.inj cost
        omega

end Closing

/-! ## Relaxed rows -/

theorem IsRelaxed.atMost_of_walk (relaxed : IsRelaxed adjacency before row) (bounded : Bounded adjacency)
    (sizes : before.size = adjacency.size) (known : (before.getD u {}).cost = some initial)
    (walk : Walk adjacency u steps v) : v < row.size ∧ AtMost (initial + steps) (row.getD v {}).cost := by
  induction walk with
  | start =>
    have inside : u < row.size := relaxed.size ▸ lt_size_of_known known
    refine ⟨inside, relaxed.cheapened u inside _ ?_⟩
    rw [known, atMost_some_iff]
    simp
  | @step steps x y _ neighbor ih =>
    obtain ⟨inside, e, cost, le⟩ := ih
    have reached : y < row.size := (bounded x y neighbor).trans_eq (sizes.symm.trans relaxed.size.symm)
    refine ⟨reached, (relaxed.closed x inside e cost y neighbor reached).mono ?_⟩
    push_cast
    omega

/-- A relaxed row is the closure of the row that it was. -/
theorem isClosure_relaxRow (bounded : Bounded adjacency) (sizes : row.size = adjacency.size) :
    IsClosure adjacency row (relaxRow adjacency row) := by
  have relaxed := isRelaxed_relaxRow adjacency row
  obtain ⟨rest, closing, unknown⟩ := settle_keeps (Closing adjacency row) (fun _ _ _ => Closing.next) row.size
    (.start adjacency row) (by rw [List.length_range])
  change Closing adjacency row (relaxRow adjacency row) rest at closing
  generalize relaxRow adjacency row = after at relaxed closing
  have least : ∀ w c, (after.getD w {}).cost = some c → IsLeast (walkCosts adjacency row w) c := by
    intro w c cost
    refine ⟨closing.walks w c cost, ?_⟩
    rintro d ⟨u, initial, steps, known, walk, rfl⟩
    obtain ⟨-, e, other, le⟩ := relaxed.atMost_of_walk bounded sizes known walk
    cases cost.symm.trans other
    exact le
  have found : ∀ w c, c ∈ walkCosts adjacency row w → ∃ d, (after.getD w {}).cost = some d := by
    rintro w c ⟨u, initial, steps, known, walk, rfl⟩
    obtain ⟨-, e, cost, -⟩ := relaxed.atMost_of_walk bounded sizes known walk
    exact ⟨e, cost⟩
  constructor
  case size => exact relaxed.size
  case reached =>
    intro w _ c
    refine ⟨least w c, fun smallest => ?_⟩
    obtain ⟨d, cost⟩ := found w c smallest.1
    rw [cost, (least w d cost).unique smallest]
  case unreached =>
    intro w _
    constructor
    · intro absent
      refine Set.eq_empty_iff_forall_notMem.mpr fun c member => ?_
      obtain ⟨d, cost⟩ := found w c member
      cases absent.symm.trans cost
    · intro empty
      cases cost : (after.getD w {}).cost with
      | none => rfl
      | some c => exact absurd (least w c cost).1 (empty ▸ Set.notMem_empty c)
  case lowered =>
    rintro w inside ⟨c, cost, dearer⟩
    rcases relaxed.origin w inside with same | ⟨u, e, below, neighbor, at_u, moved, above⟩
    · rw [same] at cost
      exact absurd (cost ▸ atMost_some_iff.mpr le_rfl) dearer
    · refine ⟨u, e, moved, neighbor, at_u, fun v d near at_v => ?_⟩
      have within := relaxed.closed v (lt_size_of_known at_v) d at_v w near inside
      rw [moved, atMost_some_iff] at within
      rcases lt_or_eq_of_le (show e ≤ d by omega) with less | rfl
      · exact .inl less
      · refine .inr ⟨rfl, not_lt.mp fun earlier => ?_⟩
        exact closing.first w inside u e moved above v earlier near at_v
  case kept =>
    intro w inside same
    rcases relaxed.origin w inside with kept | ⟨u, e, -, -, -, moved, above⟩
    · exact kept
    · exact absurd ⟨e + 1, by rw [moved], above⟩ same

/-- Relaxing replaces a row by its closure and leaves all other cells of the table alone. A queue in which entries get
out of date does the same in place, and becomes empty. -/
theorem Table.relax_closure (bounded : Bounded adjacency) (fits : base + adjacency.size ≤ t.size) :
    IsClosure adjacency (t.row base adjacency.size)
      ((t.relax base adjacency.size adjacency).row base adjacency.size) ∧
    (t.relax base adjacency.size adjacency).size = t.size ∧
    (∀ i, i < base ∨ base + adjacency.size ≤ i → (t.relax base adjacency.size adjacency).cell i = t.cell i) ∧
    ∃ turns, (turn base adjacency)^[turns] (t, t.entries base adjacency.size) =
      (t.relax base adjacency.size adjacency, []) := by
  have sizes : (t.row base adjacency.size).size = adjacency.size := size_row ..
  have length : (relaxRow adjacency (t.row base adjacency.size)).size = adjacency.size :=
    (isRelaxed_relaxRow adjacency _).size.trans sizes
  have after : (t.relax base adjacency.size adjacency).row base adjacency.size =
      relaxRow adjacency (t.row base adjacency.size) := by
    have written : (t.withRow base (relaxRow adjacency (t.row base adjacency.size))).row base _ = _ :=
      row_withRow (by rwa [length])
    rwa [length] at written
  refine ⟨after ▸ isClosure_relaxRow bounded sizes, size_writeRow .., ?_, exists_turns bounded fits⟩
  intro i outside
  rw [relax, cell_writeRow, Array.length_toList, length, if_neg (by omega)]

/-- A row of four vertices behind one other cell. Arcs lead one way: from the first two to the third, and from the third
to the fourth. -/
def oneWayRow : Table :=
  #[⟨some 7, .merge, 3⟩, ⟨some (-2), .direct, 0⟩, ⟨some (-2), .direct, 1⟩, {}, ⟨some 5, .merge, 1⟩, ⟨some 9, .unset, 0⟩]

def oneWay : Adjacency := #[[2], [2], [3], []]

theorem bounded_oneWay : Bounded oneWay := by
  have within : ∀ neighbors ∈ oneWay.toList, ∀ v ∈ neighbors, v < 4 := by decide
  intro u v neighbor
  by_cases inside : u < oneWay.size
  · rw [Array.getD_eq_getD_getElem?, Array.getElem?_eq_getElem inside] at neighbor
    exact within _ (Array.mem_toList_iff.mpr (Array.getElem_mem inside)) v neighbor
  · rw [Array.getD_eq_getD_getElem?, Array.getElem?_eq_none (not_lt.mp inside)] at neighbor
    cases neighbor

/-- Of two vertices with equal costs the first one is named, and a cost below zero is passed on. -/
theorem Table.relax_closure_oneWay : Bounded oneWay ∧ 1 + oneWay.size ≤ oneWayRow.size ∧
    (oneWayRow.relax 1 4 oneWay).toList = [⟨some 7, .merge, 3⟩, ⟨some (-2), .direct, 0⟩, ⟨some (-2), .direct, 1⟩,
      ⟨some (-1), .move, 0⟩, ⟨some 0, .move, 2⟩, ⟨some 9, .unset, 0⟩] ∧
    IsClosure oneWay (oneWayRow.row 1 4) ((oneWayRow.relax 1 4 oneWay).row 1 4) ∧
    ∃ turns, (turn 1 oneWay)^[turns] (oneWayRow, oneWayRow.entries 1 4) = (oneWayRow.relax 1 4 oneWay, []) := by
  have fits : 1 + oneWay.size ≤ oneWayRow.size := by decide
  obtain ⟨closure, -, -, turns⟩ := relax_closure bounded_oneWay fits
  exact ⟨bounded_oneWay, fits, by decide +kernel, closure, turns⟩

end SteinerTrees
