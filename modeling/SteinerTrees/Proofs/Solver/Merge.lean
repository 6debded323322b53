import SteinerTrees.Proofs.Solver.Relax
import SteinerTrees.Proofs.Solver.Submasks

/-! # Merged rows

Merging tries every proper part of a set against the rest, so a merged cell costs at most what any part and
its rest cost together, and costs exactly that for the part it names. Only the row of the set changes. -/

namespace SteinerTrees.Table

variable {t : Table} {adjacency : Adjacency} {width mask m sub v n : Nat} {a b : Int} {best cell : Cell}
  {subs : List Nat}

/-- A part and the rest of a set have trees at a vertex, of the given costs. -/
def Splits (t : Table) (width mask v sub : Nat) (a b : Int) : Prop :=
  (t.entry width sub v).cost = some a ∧ (t.entry width (mask ^^^ sub) v).cost = some b

theorem mergePart_of_splits (splits : t.Splits width mask v sub a b) :
    t.mergePart width mask v best sub =
      if costBelow (a + b) best.cost then ⟨some (a + b), .merge, sub⟩ else best := by
  obtain ⟨first, second⟩ := splits
  rw [mergePart]
  simp only [first, second]

theorem mergePart_cases (t : Table) (width mask v sub : Nat) (best : Cell) :
    t.mergePart width mask v best sub = best ∨ ∃ a b, t.Splits width mask v sub a b ∧
    ¬ AtMost (a + b) best.cost ∧
      t.mergePart width mask v best sub = ⟨some (a + b), .merge, sub⟩ := by
  cases first : (t.entry width sub v).cost with
  | none =>
    left
    rw [mergePart]
    simp only [first]
  | some a =>
    cases second : (t.entry width (mask ^^^ sub) v).cost with
    | none =>
      left
      rw [mergePart]
      simp only [first, second]
    | some b =>
      rw [mergePart_of_splits ⟨first, second⟩]
      by_cases below : costBelow (a + b) best.cost = true
      · rw [if_pos below]
        exact .inr ⟨a, b, ⟨first, second⟩, costBelow_iff.mp below, rfl⟩
      · rw [if_neg below]
        exact .inl rfl

theorem atMost_mergePart {bound : Int} (atMost : AtMost bound best.cost) :
    AtMost bound (t.mergePart width mask v best sub).cost := by
  rcases mergePart_cases t width mask v sub best with same | ⟨a, b, -, dearer, taken⟩
  · rwa [same]
  · rw [taken, atMost_some_iff]
    by_contra above
    exact dearer (atMost.mono (by omega))

theorem atMost_foldl_mergePart {bound : Int} (subs : List Nat) : ∀ {best : Cell}, AtMost bound best.cost →
    AtMost bound (subs.foldl (t.mergePart width mask v) best).cost := by
  induction subs with
  | nil => exact fun atMost => atMost
  | cons sub rest ih => exact fun atMost => ih (atMost_mergePart atMost)

/-- The best of some parts is the cell at the start or one of the parts, and none of the parts costs less. -/
theorem foldl_mergePart_spec (subs : List Nat) : ∀ best : Cell,
    (subs.foldl (t.mergePart width mask v) best = best ∨ ∃ sub ∈ subs, ∃ a b, t.Splits width mask v sub a b ∧
      subs.foldl (t.mergePart width mask v) best = ⟨some (a + b), .merge, sub⟩) ∧
    ∀ sub ∈ subs, ∀ a b, t.Splits width mask v sub a b → AtMost (a + b)
    (subs.foldl (t.mergePart width mask v) best).cost := by
  induction subs with
  | nil => exact fun _ => ⟨.inl rfl, fun _ member => absurd member List.not_mem_nil⟩
  | cons sub rest ih =>
    intro best
    obtain ⟨origin, least⟩ := ih (t.mergePart width mask v best sub)
    rw [List.foldl_cons]
    constructor
    · rcases origin with same | ⟨other, member, taken⟩
      · rcases mergePart_cases t width mask v sub best with kept | ⟨a, b, splits, -, taken⟩
        · exact .inl (same.trans kept)
        · exact .inr ⟨sub, List.mem_cons_self, a, b, splits, same.trans taken⟩
      · exact .inr ⟨other, List.mem_cons_of_mem sub member, taken⟩
    · intro other member a b splits
      rcases List.mem_cons.mp member with rfl | member
      · apply atMost_foldl_mergePart
        rw [mergePart_of_splits splits]
        by_cases below : costBelow (a + b) best.cost = true
        · rw [if_pos below]
          exact atMost_some_iff.mpr le_rfl
        · rw [if_neg below]
          exact not_not.mp fun dearer => below (costBelow_iff.mpr dearer)
      · exact least other member a b splits

/-- What merging makes of an empty cell. -/
structure IsMerged (t : Table) (width mask v : Nat) (cell : Cell) : Prop where
  origin : cell = {} ∨ ∃ sub a b, IsPart mask sub ∧ t.Splits width mask v sub a b ∧
    cell = ⟨some (a + b), .merge, sub⟩
  least : ∀ sub, IsPart mask sub → ∀ a b, t.Splits width mask v sub a b → AtMost (a + b) cell.cost

theorem isMerged_mergeCell (empty : t.entry width mask v = {}) :
    IsMerged t width mask v (t.mergeCell width mask v) := by
  obtain ⟨origin, least⟩ := foldl_mergePart_spec (submasks mask) (t.entry width mask v)
  constructor
  · rcases origin with same | ⟨sub, member, a, b, splits, taken⟩
    · exact .inl (same.trans empty)
    · exact .inr ⟨sub, a, b, mem_submasks_iff.mp member, splits, taken⟩
  · exact fun sub part a b splits => least sub (mem_submasks_iff.mpr part) a b splits

/-! ## One row -/

theorem mergeRow_of_isSingle (relaxation : Bool) (adjacency : Adjacency) (t : Table)
    (single : isSingle m = true) :
    mergeRow relaxation width adjacency t m = t := by
  rw [mergeRow, if_pos single]

theorem getD_toList_relaxRow (adjacency : Adjacency) (row : Array Cell) (v : Nat) :
    (relaxRow adjacency row).toList.getD v {} = (relaxRow adjacency row).getD v {} := by
  rw [List.getD_eq_getElem?_getD, Array.getD_eq_getD_getElem?, Array.getElem?_toList]

@[simp] theorem size_mergeRow (relaxation : Bool) (adjacency : Adjacency) (t : Table) (m : Nat) :
    (mergeRow relaxation width adjacency t m).size = t.size := by
  rw [mergeRow]
  split_ifs
  · rfl
  · rw [Table.relax, size_writeRow, size_writeRow]
  · rw [size_writeRow]

theorem length_relaxRow_row (adjacency : Adjacency) (t : Table) (base width : Nat) :
    (relaxRow adjacency (t.row base width)).toList.length = width := by
  rw [Array.length_toList, (isRelaxed_relaxRow adjacency _).size, size_row]

/-- Merging the row of one set leaves the rows of all others alone. -/
theorem entry_mergeRow_of_ne (relaxation : Bool) (size : t.size = 2 ^ n * width) (below : m < 2 ^ n)
    (inside : v < width) (differ : mask ≠ m) : (mergeRow relaxation width adjacency t m).entry width mask v =
    t.entry width mask v := by
  have length : ((List.range width).map (t.mergeCell width m)).length = width := by
    rw [List.length_map, List.length_range]
  have fits := pow_mul_le_size size below
  rw [mergeRow]
  split_ifs
  · rfl
  · rw [Table.relax, entry_writeRow (length_relaxRow_row ..) inside (by rwa [size_writeRow]), if_neg differ,
      entry_writeRow length inside fits, if_neg differ]
  · rw [entry_writeRow length inside fits, if_neg differ]

/-- The row of a set after merging, and after relaxing if asked for: each cell comes from a part and the rest or
from a neighbour, and neither offers less. -/
structure IsMergedRow (relaxation : Bool) (adjacency : Adjacency) (t : Table) (width mask : Nat)
    (row : Nat → Cell) : Prop where
  origin : ∀ v < width, row v = {} ∨
    (∃ sub a b, IsPart mask sub ∧ t.Splits width mask v sub a b ∧ row v = ⟨some (a + b), .merge, sub⟩) ∨
    (relaxation = true ∧ ∃ u c, u < width ∧ v ∈ adjacency.getD u [] ∧ (row u).cost = some c ∧
      row v = ⟨some (c + 1), .move, u⟩)
  least : ∀ v < width, ∀ sub, IsPart mask sub → ∀ a b, t.Splits width mask v sub a b →
    AtMost (a + b) (row v).cost
  closed : relaxation = true → ∀ u < width, ∀ c, (row u).cost = some c → ∀ w ∈ adjacency.getD u [],
    w < width →
    AtMost (c + 1) (row w).cost
  nonneg : (∀ v < width, ∀ sub, IsPart mask sub → ∀ c, (t.entry width sub v).cost = some c → 0 ≤ c) →
    ∀ v < width, ∀ c, (row v).cost = some c → 0 ≤ c

variable {before row : Array Cell}

theorem nonneg_of_isMerged (merged : IsMerged t width mask v cell)
    (parts : ∀ sub, IsPart mask sub → ∀ c, (t.entry width sub v).cost = some c → 0 ≤ c) {c : Int}
    (known : cell.cost = some c) : 0 ≤ c := by
  rcases merged.origin with empty | ⟨sub, a, b, part, ⟨first, second⟩, taken⟩
  · rw [empty] at known
    cases known
  · rw [taken] at known
    cases known
    exact Int.add_nonneg (parts sub part a first) (parts _ part.rest b second)

/-- A row of merged cells. -/
theorem isMergedRow_plain (merged : ∀ v < width, IsMerged t width mask v (row.getD v {})) :
    IsMergedRow false adjacency t width mask fun v => row.getD v {} where
  origin v inside := (merged v inside).origin.imp id .inl
  least v inside := (merged v inside).least
  closed asked := absurd asked Bool.false_ne_true
  nonneg parts v inside _ := nonneg_of_isMerged (merged v inside) (parts v inside)

/-- A relaxed row of merged cells. -/
theorem isMergedRow_relaxed (size : before.size = width)
    (merged : ∀ v < width, IsMerged t width mask v (before.getD v {}))
    (relaxed : IsRelaxed adjacency before row) :
    IsMergedRow true adjacency t width mask fun v => row.getD v {} := by
  have rowSize : row.size = width := relaxed.size.trans size
  constructor
  case origin =>
    intro v inside
    rcases relaxed.origin v (by omega) with same | ⟨u, c, below, neighbor, known, taken, -⟩
    · rw [same]
      exact (merged v inside).origin.imp id .inl
    · exact .inr (.inr ⟨rfl, u, c, by omega, neighbor, known, taken⟩)
  case least =>
    intro v inside sub part a b splits
    exact relaxed.cheapened v (by omega) _ ((merged v inside).least sub part a b splits)
  case closed =>
    intro _ u inside c known w neighbor inner
    exact relaxed.closed u (by omega) c known w neighbor (by omega)
  case nonneg =>
    intro parts v inside c known
    refine relaxed.floor 0 ?_ v (by omega) c known
    exact fun w inner d => nonneg_of_isMerged (merged w (by omega)) (parts w (by omega))

/-- Merging the row of a set that is still empty. -/
theorem isMergedRow_mergeRow (relaxation : Bool) (adjacency : Adjacency) (size : t.size = 2 ^ n * width)
    (below : m < 2 ^ n) (several : isSingle m ≠ true) (empty : ∀ v < width, t.entry width m v = {}) :
    ∃ row, IsMergedRow relaxation adjacency t width m row ∧
      ∀ v < width, (mergeRow relaxation width adjacency t m).entry width m v = row v := by
  have length : ((List.range width).map (t.mergeCell width m)).length = width := by
    rw [List.length_map, List.length_range]
  have fits := pow_mul_le_size size below
  have cells : ∀ v < width,
      (t.writeRow (m * width) ((List.range width).map (t.mergeCell width m))).entry width m v =
      t.mergeCell width m v := by
    intro v inside
    rw [entry_writeRow length inside fits, if_pos rfl, List.getD_eq_getElem?_getD, List.getElem?_map,
      List.getElem?_range inside, Option.map_some, Option.getD_some]
  set merged := t.writeRow (m * width) ((List.range width).map (t.mergeCell width m)) with written
  have isMerged : ∀ v < width, IsMerged t width m v ((merged.row (m * width) width).getD v {}) := by
    intro v inside
    rw [getD_row inside, ← entry, cells v inside]
    exact isMerged_mergeCell (empty v inside)
  rw [mergeRow, if_neg several, ← written]
  cases relaxation with
  | false =>
    refine ⟨_, isMergedRow_plain isMerged, ?_⟩
    intro v inside
    rw [if_neg Bool.false_ne_true, getD_row inside]
  | true =>
    refine ⟨_, isMergedRow_relaxed (size_row ..) isMerged (isRelaxed_relaxRow adjacency _), ?_⟩
    intro v inside
    rw [if_pos rfl, Table.relax, entry_writeRow (length_relaxRow_row ..) inside
      (by rw [written, size_writeRow]; exact fits),
      if_pos rfl, getD_toList_relaxRow]

end SteinerTrees.Table
