import SteinerTrees.Proofs.Generator.Drawn

/-! # The layout of a grid

The nodes of a grid are numbered row by row: the quotient of a number by the columns is its row, and the remainder its
place there. So the cells are in the order of their numbers, and a cell is joined with the one whose number is larger by
the columns, and with the next one unless it ends its row. -/

namespace SteinerTrees

variable {size u v w r c k : Nat}

namespace Layout

/-! ## Rows and columns -/

theorem rowsUpTo_spec (size bound : Nat) : 0 < rowsUpTo size bound ∧ rowsUpTo size bound ∣ size := by
  induction bound with
  | zero => exact ⟨Nat.one_pos, Nat.one_dvd _⟩
  | succ bound ih =>
    unfold rowsUpTo
    split
    next divides => exact ⟨Nat.succ_pos _, Nat.dvd_of_mod_eq_zero divides⟩
    next => exact ih

/-- All rows of a grid are of one length. -/
theorem rows_mul_columns (size : Nat) : rows size * columns size = size := Nat.mul_div_cancel' (rowsUpTo_spec size _).2

theorem columns_pos (positive : 0 < size) : 0 < columns size :=
  Nat.div_pos (Nat.le_of_dvd positive (rowsUpTo_spec size _).2) (rowsUpTo_spec size _).1

/-! ## Numbers by rows and columns -/

/-- Up to the end of a row the nodes are in the same row. -/
theorem add_within (within : u % c + k < c) : (u + k) / c = u / c ∧ (u + k) % c = u % c + k := by
  rw [Nat.div_mod_unique (by omega)]
  have split := Nat.mod_add_div u c
  omega

/-- The numbers at the first places of the first rows. -/
def block (rows places columns : Nat) : List Nat :=
  (List.range rows).flatMap fun i => (List.range places).map fun j => i * columns + j

theorem length_block (r w c : Nat) : (block r w c).length = r * w := by
  simp [block]

theorem map_block {α : Type} (f : Nat → α) (r w c : Nat) :
    (block r w c).map f = (List.range r).flatMap fun i => (List.range w).map fun j => f (i * c + j) := by
  simp only [block, List.map_flatMap, List.map_map, Function.comp_def]

theorem block_eq_filter (within : w ≤ c) (r : Nat) :
    block r w c = (List.range (r * c)).filter fun k => k % c < w := by
  induction r with
  | zero => rw [Nat.zero_mul]; rfl
  | succ r ih =>
    -- a row keeps its first places
    have row : (List.range c).filter (fun j => (r * c + j) % c < w) = List.range w := by
      obtain ⟨more, rfl⟩ := Nat.exists_eq_add_of_le within
      rw [List.range_add, List.filter_append, List.filter_eq_self.mpr, List.filter_eq_nil_iff.mpr, List.append_nil]
      · refine List.forall_mem_map.mpr fun j member => ?_
        have inside := List.mem_range.mp member
        rw [Nat.mul_add_mod', Nat.mod_eq_of_lt (by omega), decide_eq_true_eq]
        omega
      · intro j member
        have place := List.mem_range.mp member
        rw [Nat.mul_add_mod', Nat.mod_eq_of_lt (by omega)]
        exact decide_eq_true place
    rw [block, List.range_succ, List.flatMap_append, ← block, ih, Nat.succ_mul, List.range_add, List.filter_append,
      List.filter_map, Function.comp_def, row, List.flatMap_singleton]

theorem mem_block_iff (within : w ≤ c) : k ∈ block r w c ↔ k < r * c ∧ k % c < w := by
  rw [block_eq_filter within, List.mem_filter, List.mem_range, decide_eq_true_eq]

theorem nodup_block (within : w ≤ c) (r : Nat) : (block r w c).Nodup := by
  rw [block_eq_filter within]
  exact List.nodup_range.filter _

/-! ## Steps -/

/-- The steps down a column and along a row. -/
def steps (rows columns : Nat) : List (Nat × Nat) :=
  (block (rows - 1) columns columns).map (fun k => (k, k + columns)) ++
    (block rows (columns - 1) columns).map fun k => (k, k + 1)

theorem mem_steps_iff : (u, v) ∈ steps r c ↔
    u + c < r * c ∧ v = u + c ∨ u < r * c ∧ u % c ≠ c - 1 ∧ v = u + 1 := by
  have down : u ∈ block (r - 1) c c ↔ u + c < r * c := by
    rw [mem_block_iff le_rfl, Nat.sub_one_mul]
    constructor
    · rintro ⟨above, -⟩
      omega
    · intro above
      have wide : 0 < c := Nat.pos_of_mul_pos_left (Nat.zero_lt_of_lt above)
      exact ⟨by omega, Nat.mod_lt u wide⟩
  have along : u ∈ block r (c - 1) c ↔ u < r * c ∧ u % c ≠ c - 1 := by
    rw [mem_block_iff (Nat.sub_le c 1)]
    refine and_congr_right fun inside => ?_
    have place := Nat.mod_lt u (Nat.pos_of_mul_pos_left (Nat.zero_lt_of_lt inside))
    omega
  have image (f : Nat → Nat) (nodes : List Nat) :
      (u, v) ∈ nodes.map (fun k => (k, f k)) ↔ u ∈ nodes ∧ v = f u := by
    simp only [List.mem_map, Prod.mk.injEq]
    constructor
    · rintro ⟨_, member, rfl, rfl⟩
      exact ⟨member, rfl⟩
    · rintro ⟨member, rfl⟩
      exact ⟨u, member, rfl, rfl⟩
  rw [steps, List.mem_append, image, image, down, along, and_assoc]

theorem ordered_steps (r c : Nat) : Ordered (r * c) (steps r c) where
  ascending := by
    rintro ⟨u, v⟩ member
    rcases mem_steps_iff.mp member with ⟨below, rfl⟩ | ⟨inside, within, rfl⟩
    · have wide : 0 < c := Nat.pos_of_mul_pos_left (Nat.zero_lt_of_lt below)
      exact ⟨by simp only; omega, below⟩
    · have wide : 0 < c := Nat.pos_of_mul_pos_left (Nat.zero_lt_of_lt inside)
      have place := Nat.mod_lt u wide
      have row := (add_within (u := u) (c := c) (k := 1) (by omega)).1
      refine ⟨Nat.lt_succ_self u, (Nat.div_lt_iff_lt_mul wide).mp ?_⟩
      rw [row]
      exact (Nat.div_lt_iff_lt_mul wide).mpr inside
  once := by
    have distinct (f : Nat → Nat) {nodes : List Nat} (once : nodes.Nodup) :
        (nodes.map fun k => (k, f k)).Nodup := once.map fun _ _ same => (Prod.mk.inj same).1
    refine List.Nodup.append (distinct _ (nodup_block le_rfl _)) (distinct _ (nodup_block (Nat.sub_le c 1) _)) ?_
    rintro _ down along
    obtain ⟨k, -, rfl⟩ := List.mem_map.mp down
    obtain ⟨l, member, same⟩ := List.mem_map.mp along
    obtain ⟨rfl, same⟩ := Prod.mk.inj same
    have place := ((mem_block_iff (Nat.sub_le c 1)).mp member).2
    omega

theorem length_steps (r c : Nat) : (steps r c).length = r * (c - 1) + c * (r - 1) := by
  rw [steps, List.length_append, List.length_map, List.length_map, length_block, length_block, Nat.add_comm,
    Nat.mul_comm c]

/-- A layout that joins each node to the one below it and, but at the end of a row, to the next one. -/
structure IsGrid (layout : Layout) (rows columns : Nat) : Prop where
  size : layout.size = rows * columns
  simple : layout.Simple
  mem_edges : ∀ u v, (u, v) ∈ layout.edges ↔
    u + columns < rows * columns ∧ v = u + columns ∨ u < rows * columns ∧ u % columns ≠ columns - 1 ∧ v = u + 1
  length : layout.edges.length = rows * (columns - 1) + columns * (rows - 1)

theorem Ordered.mem_iff {edges : List (Nat × Nat)} (ordered : Ordered size edges) :
    (u, v) ∈ edges ↔ u < v ∧ s(u, v) ∈ joinedPairs edges := by
  constructor
  · exact fun member => ⟨(ordered.ascending _ member).1, List.mem_map_of_mem member⟩
  · rintro ⟨lower, member⟩
    obtain ⟨⟨a, b⟩, listed, same⟩ := List.mem_map.mp member
    have ends := (ordered.ascending _ listed).1
    rcases Sym2.eq_iff.mp same with ⟨rfl, rfl⟩ | ⟨rfl, rfl⟩
    · exact listed
    · exact absurd lower ends.asymm

/-- The steps of a grid, listed twice from their lower ends. -/
def grid (rows columns : Nat) : Layout :=
  ⟨rows * columns, lowerFirst (rows * columns) (lowerFirst (rows * columns) ((steps rows columns).map Prod.swap))⟩

theorem isGrid_grid (r c : Nat) : (grid r c).IsGrid r c := by
  have simple := (ordered_steps r c).simple
  have once := simple.swap.ordered_lowerFirst
  have twice := once.simple.ordered_lowerFirst
  have swapped : joinedPairs ((steps r c).map Prod.swap) = joinedPairs (steps r c) := by
    rw [joinedPairs, List.map_map]
    exact List.map_congr_left fun edge _ => Sym2.eq_swap
  refine ⟨rfl, twice.simple, fun u v => ?_, ?_⟩
  · rw [← mem_steps_iff, (ordered_steps r c).mem_iff, ← swapped, ← simple.swap.mem_joinedPairs_lowerFirst,
      ← once.simple.mem_joinedPairs_lowerFirst]
    exact twice.mem_iff
  · rw [grid, once.simple.length_lowerFirst, simple.swap.length_lowerFirst, List.length_map, length_steps]

end Layout

/-! ## Cells -/

theorem Value.precedes_int (a b : Nat) : (Value.int a).precedes (.int b) = decide (a ≤ b) := by
  rw [Bool.eq_iff_iff]
  simp [Value.precedes, Value.quantity, Quantity.ofInt, Quantity.isAtMost, Quantity.isBelow]

namespace Skeleton

open Layout (Ordered block map_block steps)

/-- The cell with a number. -/
def cellAt (columns k : Nat) : Value := cell (.int (k / columns : Nat)) (.int (k % columns : Nat))

/-- The cells in the order of their numbers. -/
def cellsOf (rows columns : Nat) : List Value := (List.range (rows * columns)).map (cellAt columns)

theorem length_cellsOf (r c : Nat) : (cellsOf r c).length = r * c := by
  rw [cellsOf, List.length_map, List.length_range]

theorem cellAt_add {i j : Nat} (inside : j < c) : cellAt c (i * c + j) = cell (.int i) (.int j) := by
  have wide : 0 < c := Nat.zero_lt_of_lt inside
  obtain ⟨row, place⟩ : (i * c + j) / c = i ∧ (i * c + j) % c = j :=
    (Nat.div_mod_unique wide).mpr ⟨by rw [Nat.mul_comm c, Nat.add_comm], inside⟩
  rw [cellAt, row, place]

theorem key_cellAt (c k : Nat) : (cellAt c k).key = [.tuple 2, .number (k / c : Nat), .number (k % c : Nat)] := by
  simp [cellAt, cell, Value.key, Value.keyOfItems]

theorem areNodes_cellsOf (r c : Nat) : AreNodes (cellsOf r c) where
  hashable := List.forall_mem_map.mpr fun _ _ => rfl
  present := List.forall_mem_map.mpr fun _ _ => nofun
  distinct := by
    rw [cellsOf, List.map_map]
    refine List.nodup_range.map fun k l same => ?_
    simp only [Function.comp_apply, key_cellAt, List.cons.injEq, KeyPart.number.injEq, Int.natCast_inj, and_true,
      true_and] at same
    rw [← Nat.div_add_mod k c, ← Nat.div_add_mod l c, same.1, same.2]

/-- Cells are in the order of their numbers. -/
theorem sorted_cellsOf (r c : Nat) : (cellsOf r c).Pairwise fun a b => cellPrecedes a b = true := by
  refine List.pairwise_map.mpr (List.pairwise_lt_range.imp fun {k l} lower => ?_)
  have row := Nat.div_le_div_right (c := c) lower.le
  have first := Nat.div_add_mod k c
  have second := Nat.div_add_mod l c
  simp only [cellAt, cell, cellPrecedes, Value.precedes_int, Bool.and_eq_true, decide_eq_true_eq, Bool.or_eq_true,
    Bool.not_eq_true', decide_eq_false_iff_not]
  refine ⟨row, ?_⟩
  by_cases same : l / c ≤ k / c
  · right
    rw [le_antisymm same row] at second
    omega
  · exact .inl same

theorem consecutive_numbers (count : Nat) : consecutive (Value.numbers count) =
    (List.range (count - 1)).map fun i : Nat => (.int i, .int (i + 1 : Nat)) := by
  refine List.ext_getElem ?_ fun i _ _ => ?_
  · simp [consecutive]
  · simp [consecutive, Value.numbers]

theorem cells_numbers (r c : Nat) : cells (Value.numbers r) (Value.numbers c) = cellsOf r c := by
  have whole : block r c c = List.range (r * c) := by
    rw [Layout.block_eq_filter le_rfl, List.filter_eq_self]
    refine fun k member => decide_eq_true (Nat.mod_lt k ?_)
    exact Nat.pos_of_mul_pos_left (Nat.zero_lt_of_lt (List.mem_range.mp member))
  rw [cellsOf, ← whole, map_block, cells, Value.numbers, Value.numbers, List.flatMap_map]
  refine List.flatMap_congr fun i _ => ?_
  rw [List.map_map]
  exact List.map_congr_left fun j place => (cellAt_add (List.mem_range.mp place)).symm

theorem vertical_numbers (r c : Nat) : vertical (Value.numbers r) (Value.numbers c) =
    (block (r - 1) c c).map fun k => (cellAt c (k + c), cellAt c k) := by
  rw [vertical, consecutive_numbers, map_block, List.flatMap_map]
  refine List.flatMap_congr fun i _ => ?_
  simp only [Value.numbers, List.map_map]
  refine List.map_congr_left fun j place => ?_
  have inside := List.mem_range.mp place
  have below : i * c + j + c = (i + 1) * c + j := by
    rw [Nat.succ_mul]
    omega
  rw [below, cellAt_add inside, cellAt_add inside]
  rfl

theorem horizontal_numbers (r c : Nat) : horizontal (Value.numbers r) (Value.numbers c) =
    (block r (c - 1) c).map fun k => (cellAt c (k + 1), cellAt c k) := by
  rw [horizontal, consecutive_numbers, map_block, Value.numbers, List.flatMap_map]
  refine List.flatMap_congr fun i _ => ?_
  rw [List.map_map]
  refine List.map_congr_left fun j place => ?_
  have inside := List.mem_range.mp place
  rw [Nat.add_assoc, cellAt_add (by omega), cellAt_add (by omega)]
  rfl

theorem labelsAt_cellsOf (u v : Nat) (member : (u, v) ∈ steps r c) :
    labelsAt (cellsOf r c) (v, u) = (cellAt c v, cellAt c u) := by
  have ends := (Layout.ordered_steps r c).ascending (u, v) member
  have listed (k : Nat) (inside : k < r * c) : (cellsOf r c).getD k .null = cellAt c k := by
    rw [cellsOf, List.getD_eq_getElem?_getD, List.getElem?_map, List.getElem?_range inside]
    rfl
  exact Prod.ext (listed _ ends.2) (listed _ (ends.1.trans ends.2))

/-- The plain graph of a grid has all cells, and the steps between them, upwards. -/
theorem lattice_numbers (r c : Nat) : lattice (Value.numbers r) (Value.numbers c) =
    .ok (drawn (cellsOf r c) ((steps r c).map Prod.swap)) := by
  have usable := areNodes_cellsOf r c
  set down := (block (r - 1) c c).map fun k => (k, k + c) with down_eq
  set along := (block r (c - 1) c).map fun k => (k, k + 1) with along_eq
  have all : steps r c = down ++ along := rfl
  have first : vertical (Value.numbers r) (Value.numbers c) = (down.map Prod.swap).map (labelsAt (cellsOf r c)) := by
    rw [vertical_numbers, List.map_map, down_eq, List.map_map]
    refine List.map_congr_left fun k member => (labelsAt_cellsOf k (k + c) ?_).symm
    exact all ▸ List.mem_append_left _ (List.mem_map_of_mem member)
  have second : horizontal (Value.numbers r) (Value.numbers c) =
      (along.map Prod.swap).map (labelsAt (cellsOf r c)) := by
    rw [horizontal_numbers, List.map_map, along_eq, List.map_map]
    refine List.map_congr_left fun k member => (labelsAt_cellsOf k (k + 1) ?_).symm
    exact all ▸ List.mem_append_right _ (List.mem_map_of_mem member)
  have ordered : Ordered (cellsOf r c).length (down ++ along) := length_cellsOf r c ▸ Layout.ordered_steps r c
  have vertically := addPairs_drawn usable [] _ (ordered.sublist (List.sublist_append_left _ _)).simple.swap
  have horizontally := addPairs_drawn usable _ _ (List.map_append ▸ ordered.simple.swap)
  rw [lattice, cells_numbers, addNodes_drawn usable, first, second]
  change (drawn (cellsOf r c) []).addPairs _ >>= _ = _
  rw [vertically, all, List.map_append]
  exact horizontally

theorem exists_lattice (r c : Nat) : ∃ s t, lattice (Value.numbers r) (Value.numbers c) = .ok s ∧
    s.numbered = .ok t ∧ t.nodes.toList = Value.numbers (r * c) ∧ Generated.layoutOf t = .grid r c := by
  have length := length_cellsOf r c
  have numbered := numbered_drawn (areNodes_cellsOf r c) (length.symm ▸ (Layout.ordered_steps r c).simple.swap)
    (sorted_cellsOf r c)
  refine ⟨_, _, lattice_numbers r c, numbered, by rw [length]; rfl, ?_⟩
  rw [layoutOf_drawn, length, Value.length_numbers]
  rfl

end Skeleton

end SteinerTrees
