import SteinerTrees.Proofs.Graph.Hops
import SteinerTrees.Solver.Table
import Mathlib.Algebra.Group.Nat.Defs

/-! # Rows of a cost table

A table is read by set and vertex. Writing the row of one set leaves the rows of all other sets alone, and
seeding fills exactly the rows of single terminals. -/

namespace SteinerTrees

/-! ## Costs -/

/-- A cost is known and not above a bound. -/
def AtMost (bound : Int) (cost : Option Int) : Prop := ∃ c, cost = some c ∧ c ≤ bound

theorem AtMost.mono {a b : Int} {cost : Option Int} (atMost : AtMost a cost) (le : a ≤ b) :
    AtMost b cost := by
  obtain ⟨c, known, small⟩ := atMost
  exact ⟨c, known, small.trans le⟩

theorem atMost_some_iff {bound c : Int} : AtMost bound (some c) ↔ c ≤ bound :=
  ⟨fun ⟨_, same, le⟩ => Option.some.inj same ▸ le, fun le => ⟨c, rfl, le⟩⟩

theorem costBelow_iff {a : Int} {cost : Option Int} : costBelow a cost = true ↔ ¬ AtMost a cost := by
  cases cost with
  | none => simp [costBelow, AtMost]
  | some c => simp [costBelow, atMost_some_iff]

namespace Table

variable {t : Table} {adjacency : Adjacency} {terminals : List Nat} {cells : List Cell}
  {width mask m v i j terminal : Nat}

/-- The cell of a set and a vertex. -/
abbrev entry (t : Table) (width mask v : Nat) : Cell := t.cell (mask * width + v)

/-! ## Writing -/

@[simp] theorem size_writeRow (cells : List Cell) :
    ∀ (t : Table) (base : Nat), (t.writeRow base cells).size = t.size := by
  induction cells with
  | nil => exact fun _ _ => rfl
  | cons cell rest ih =>
    intro t base
    rw [writeRow, ih, Array.set!_eq_setIfInBounds, Array.size_setIfInBounds]

theorem cell_writeRow (cells : List Cell) : ∀ (t : Table) (base i : Nat), (t.writeRow base cells).cell i =
    if base ≤ i ∧ i < base + cells.length ∧ i < t.size then cells.getD (i - base) {} else t.cell i := by
  induction cells with
  | nil =>
    intro t base i
    rw [writeRow, if_neg (by simp only [List.length_nil]; omega)]
  | cons cell rest ih =>
    intro t base i
    rw [writeRow, ih, Array.set!_eq_setIfInBounds, Array.size_setIfInBounds, ← Array.set!_eq_setIfInBounds,
      Table.cell, getD_set, List.length_cons]
    by_cases first : base = i
    · subst first
      rw [if_neg (by omega), Nat.sub_self, List.getD_cons_zero]
      by_cases inside : base < t.size
      · rw [if_pos ⟨rfl, inside⟩, if_pos ⟨le_rfl, by omega, inside⟩]
      · rw [if_neg (fun both => inside both.2), if_neg (fun both => inside both.2.2)]
        rfl
    · rw [if_neg (fun both : base = i ∧ base < t.size => first both.1)]
      by_cases within : base + 1 ≤ i ∧ i < base + 1 + rest.length ∧ i < t.size
      · obtain ⟨low, high, inside⟩ := within
        rw [if_pos ⟨low, high, inside⟩, if_pos ⟨by omega, by omega, inside⟩,
          show i - base = (i - (base + 1)) + 1 by omega, List.getD_cons_succ]
      · rw [if_neg within, if_neg (by omega)]
        rfl

/-- Positions of different sets differ. -/
theorem position_in_row (inside : v < width) :
    (m * width ≤ mask * width + v ∧ mask * width + v < m * width + width) ↔ mask = m := by
  constructor
  · rintro ⟨low, high⟩
    have first : m < mask + 1 := by
      by_contra above
      have step : (mask + 1) * width ≤ m * width := Nat.mul_le_mul_right width (by omega)
      rw [Nat.add_mul] at step
      omega
    have second : mask < m + 1 := by
      by_contra above
      have step : (m + 1) * width ≤ mask * width := Nat.mul_le_mul_right width (by omega)
      rw [Nat.add_mul] at step
      omega
    omega
  · rintro rfl
    omega

/-- Writing a whole row changes that row and no other. -/
theorem entry_writeRow (length : cells.length = width) (inside : v < width)
    (fits : m * width + width ≤ t.size) :
    (t.writeRow (m * width) cells).entry width mask v = if mask =
    m then cells.getD v {} else t.entry width mask v := by
  rw [entry, cell_writeRow, length]
  by_cases same : mask = m
  · subst same
    rw [if_pos ⟨by omega, by omega, by omega⟩, if_pos rfl, Nat.add_sub_cancel_left]
  · rw [if_neg, if_neg same]
    rintro ⟨low, high, -⟩
    exact same ((position_in_row inside).mp ⟨low, high⟩)

@[simp] theorem size_row (t : Table) (base width : Nat) : (t.row base width).size = width := by
  simp only [row, List.size_toArray, List.length_map, List.length_range]

theorem getD_row (inside : v < width) (base : Nat) : (t.row base width).getD v {} = t.cell (base + v) := by
  simp only [row, Array.getD_eq_getD_getElem?, List.getElem?_toArray, List.getElem?_map,
    List.getElem?_range inside, Option.map_some, Option.getD_some]

/-! ## Seeding -/

@[simp] theorem length_seedRow : (seedRow adjacency terminal).length = adjacency.size := by
  simp only [seedRow, List.length_map, List.length_range]

@[simp] theorem size_seedFrom (terminals : List Nat) :
    ∀ (t : Table) (i : Nat), (seedFrom adjacency t i terminals).size = t.size := by
  induction terminals with
  | nil => exact fun _ _ => rfl
  | cons terminal rest ih =>
    intro t i
    rw [seedFrom, ih, size_writeRow]

theorem pow_mul_le_size {total : Nat} (size : t.size = 2 ^ total * width) (below : m < 2 ^ total) :
    m * width + width ≤ t.size := by
  rw [size, ← Nat.succ_mul]
  exact Nat.mul_le_mul_right width below

/-- Seeding from number `i` on leaves all rows but those of single terminals alone. -/
theorem entry_seedFrom_of_ne (terminals : List Nat) (total : Nat) (inside : v < adjacency.size) :
    ∀ (t : Table) (i : Nat), t.size = 2 ^ total * adjacency.size → i + terminals.length ≤ total →
      (∀ j < terminals.length, mask ≠ 2 ^ (i + j)) →
      (seedFrom adjacency t i terminals).entry adjacency.size mask v = t.entry adjacency.size mask v := by
  induction terminals with
  | nil => exact fun _ _ _ _ _ => rfl
  | cons terminal rest ih =>
    intro t i size fits differ
    rw [List.length_cons] at fits differ
    have below : 2 ^ i < 2 ^ total := Nat.pow_lt_pow_right (by omega) (by omega)
    rw [seedFrom, ih _ _ (by rw [size_writeRow, size]) (by omega)]
    · rw [Nat.pow_eq, entry_writeRow length_seedRow inside (pow_mul_le_size size below),
        if_neg (by simpa using differ 0 (by omega))]
    · intro j bound
      rw [Nat.add_right_comm]
      exact differ (j + 1) (by omega)

/-- The row of a single terminal holds its seeds. -/
theorem entry_seedFrom (terminals : List Nat) (total : Nat) (inside : v < adjacency.size) :
    ∀ (t : Table) (i j : Nat), t.size = 2 ^ total * adjacency.size → i + terminals.length ≤ total →
      terminals[j]? = some terminal →
      (seedFrom adjacency t i terminals).entry adjacency.size (2 ^ (i + j)) v =
      (seedRow adjacency terminal).getD v {} := by
  induction terminals with
  | nil => exact fun _ _ _ _ _ absent => absurd absent (by simp)
  | cons first rest ih =>
    intro t i j size fits found
    rw [List.length_cons] at fits
    have below : 2 ^ i < 2 ^ total := Nat.pow_lt_pow_right (by omega) (by omega)
    have written : (t.writeRow (2 ^ i * adjacency.size) (seedRow adjacency first)).size =
      2 ^ total * adjacency.size := by
      rw [size_writeRow, size]
    rw [seedFrom, Nat.pow_eq]
    cases j with
    | zero =>
      rw [List.getElem?_cons_zero, Option.some.injEq] at found
      rw [entry_seedFrom_of_ne rest total inside _ _ written (by omega), Nat.add_zero,
        entry_writeRow length_seedRow inside (pow_mul_le_size size below), if_pos rfl, found]
      intro j _ same
      have := Nat.pow_right_injective le_rfl same
      omega
    | succ j =>
      rw [List.getElem?_cons_succ] at found
      rw [show i + (j + 1) = i + 1 + j by omega]
      exact ih _ (i + 1) j written (by omega) found

@[simp] theorem size_blank (terminals width : Nat) : (blank terminals width).size = 2 ^ terminals * width :=
  Array.size_replicate

@[simp] theorem cell_blank (terminals width i : Nat) : (blank terminals width).cell i = {} := by
  rw [cell, blank, Array.getD_eq_getD_getElem?, Array.getElem?_replicate]
  split_ifs <;> rfl

theorem size_seeded : (seeded adjacency terminals).size = 2 ^ terminals.length * adjacency.size := by
  rw [seeded, size_seedFrom, size_blank]

theorem entry_seeded_of_ne (inside : v < adjacency.size) (differ : ∀ j < terminals.length, mask ≠ 2 ^ j) :
    (seeded adjacency terminals).entry adjacency.size mask v = {} := by
  rw [seeded, entry_seedFrom_of_ne terminals terminals.length inside _ 0 (size_blank ..) (by omega)
    (by simpa using differ), entry, cell_blank]

theorem entry_seeded (inside : v < adjacency.size) (found : terminals[j]? = some terminal) :
    (seeded adjacency terminals).entry adjacency.size (2 ^ j) v = (seedRow adjacency terminal).getD v {} := by
  have seeds := entry_seedFrom terminals terminals.length inside (blank terminals.length adjacency.size) 0 j
    (size_blank ..) (by omega) found
  rwa [Nat.zero_add] at seeds

/-- The seed of a vertex: the hops of its visit, or nothing. -/
theorem getD_seedRow (inside : v < adjacency.size) : (seedRow adjacency terminal).getD v {} =
    match Hops.visit? (Hops.explore adjacency terminal) v with
    | some visit => ⟨some visit.hops, .direct, terminal⟩
    | none => {} := by
  rw [List.getD_eq_getElem?_getD]
  cases found : Hops.visit? (Hops.explore adjacency terminal) v with
  | none =>
    simp only [seedRow, List.getElem?_map, List.getElem?_range inside, Option.map_some, found,
      Option.getD_some]
  | some visit =>
    simp only [seedRow, List.getElem?_map, List.getElem?_range inside, Option.map_some, found,
      Option.getD_some]

end Table

end SteinerTrees
