import Mathlib
import SteinerTrees.Proofs.Generator.Instances
import SteinerTrees.Proofs.Graph.Distance

/-! # Grids

The search for rows goes down from the root of the size, so the first divisor that it meets is the largest one that is
not above the root. The nodes of a grid are numbered row by row: the quotient of a node by the columns is its row, and
the remainder its place there. An edge changes one of the two by one, and the shortest way between two nodes changes the
one and then the other. -/

namespace SteinerTrees

variable {layout : Layout} {size bound bits u v w r c k : Nat}

namespace Layout

/-! ## Rows and columns -/

/-- The rows and columns of a grid of a size that is as square as its divisors allow. -/
structure IsMostSquare (size rows columns : Nat) : Prop where
  product : rows * columns = size
  le : rows ≤ columns
  greatest : ∀ r c, r * c = size → r ≤ c → r ≤ rows

/-- The steps from one node to another along rows and columns of some length. -/
def taxicab (columns u v : Nat) : Nat := Nat.dist (u / columns) (v / columns) + Nat.dist (u % columns) (v % columns)

theorem taxicab_comm (c u v : Nat) : taxicab c u v = taxicab c v u := by
  rw [taxicab, taxicab, Nat.dist_comm, Nat.dist_comm (u % c)]

theorem taxicab_triangle (c u v w : Nat) : taxicab c u w ≤ taxicab c u v + taxicab c v w := by
  have rows := Nat.dist.triangle_inequality (u / c) (v / c) (w / c)
  have places := Nat.dist.triangle_inequality (u % c) (v % c) (w % c)
  unfold taxicab
  omega

namespace IsGrid

theorem columns_pos (grid : layout.IsGrid r c) (inside : u < layout.size) : 0 < c := by
  rw [grid.size] at inside
  exact Nat.pos_of_mul_pos_left (Nat.zero_lt_of_lt inside)

theorem taxicab_of_mem (grid : layout.IsGrid r c) (edge : (u, v) ∈ layout.edges) : taxicab c u v = 1 := by
  have wide := grid.columns_pos (grid.simple.inside (u, v) edge).1
  unfold taxicab
  rcases (grid.mem_edges u v).mp edge with ⟨-, rfl⟩ | ⟨-, within, rfl⟩
  · rw [Nat.add_div_right u wide, Nat.add_mod_right, Nat.dist_self]
    simp [Nat.dist]
  · have place := Nat.mod_lt u wide
    obtain ⟨row, next⟩ := add_within (u := u) (c := c) (k := 1) (by omega)
    rw [row, next, Nat.dist_self]
    simp [Nat.dist]

/-- No way is shorter than the steps along rows and columns. -/
theorem taxicab_le_distance (grid : layout.IsGrid r c) (u v : Nat) : taxicab c u v ≤ layout.graph.distance u v := by
  refine le_iInf fun walk => Nat.cast_le.mpr ?_
  induction walk with
  | nil => simp [taxicab, Nat.dist_self]
  | @cons a b d adjacent rest ih =>
    have step : taxicab c a b = 1 := by
      rcases mem_edgeSet_graph.mp (Graph.simple_adj_iff.mp adjacent).1 with forth | back
      · exact grid.taxicab_of_mem forth
      · rw [taxicab_comm, grid.taxicab_of_mem back]
    have longer := taxicab_triangle c a b d
    rw [SimpleGraph.Walk.length_cons]
    omega

/-- The way down a column. -/
theorem distance_down (grid : layout.IsGrid r c) (inside : u + k * c < layout.size) :
    layout.graph.distance u (u + k * c) ≤ k := by
  induction k with
  | zero => simp
  | succ k ih =>
    rw [Nat.succ_mul, ← Nat.add_assoc] at inside ⊢
    refine Graph.distance_le_succ (ih (by omega)) (mem_edgeSet_graph.mpr (.inl ?_))
    exact (grid.mem_edges _ _).mpr (.inl ⟨grid.size ▸ inside, rfl⟩)

/-- The way along a row. -/
theorem distance_along (grid : layout.IsGrid r c) (inside : u + k < layout.size) (within : u % c + k < c) :
    layout.graph.distance u (u + k) ≤ k := by
  induction k with
  | zero => simp
  | succ k ih =>
    have place := (add_within (u := u) (c := c) (k := k) (by omega)).2
    have before := grid.size ▸ inside
    refine Graph.distance_le_succ (ih (by omega) (by omega)) (mem_edgeSet_graph.mpr (.inl ?_))
    exact (grid.mem_edges _ _).mpr (.inr ⟨by omega, by omega, rfl⟩)

theorem distance_column (grid : layout.IsGrid r c) (first : u < layout.size) (second : v < layout.size)
    (place : u % c = v % c) : layout.graph.distance u v ≤ Nat.dist (u / c) (v / c) := by
  wlog above : u / c ≤ v / c generalizing u v
  · rw [Graph.distance, SimpleGraph.edist_comm, Nat.dist_comm]
    exact this second first place.symm (not_le.mp above).le
  have split := Nat.mod_add_div u c
  have others := Nat.mod_add_div v c
  have way : v = u + (v / c - u / c) * c := by
    rw [Nat.mul_comm, Nat.mul_sub]
    have rows := Nat.mul_le_mul_left c above
    omega
  rw [Nat.dist_eq_sub_of_le above]
  conv_lhs => rw [way]
  exact grid.distance_down (way ▸ second)

theorem distance_row (grid : layout.IsGrid r c) (first : u < layout.size) (second : v < layout.size)
    (row : u / c = v / c) : layout.graph.distance u v ≤ Nat.dist (u % c) (v % c) := by
  wlog before : u % c ≤ v % c generalizing u v
  · rw [Graph.distance, SimpleGraph.edist_comm, Nat.dist_comm]
    exact this second first row.symm (not_le.mp before).le
  have split := Nat.mod_add_div u c
  have others := Nat.mod_add_div v c
  have place := Nat.mod_lt v (grid.columns_pos first)
  have way : v = u + (v % c - u % c) := by
    rw [row] at split
    omega
  rw [Nat.dist_eq_sub_of_le before]
  conv_lhs => rw [way]
  exact grid.distance_along (way ▸ second) (by omega)

/-- The distance of two nodes is that of their rows and that of their places. -/
theorem distance_eq (grid : layout.IsGrid r c) (first : u < layout.size) (second : v < layout.size) :
    layout.graph.distance u v = taxicab c u v := by
  refine le_antisymm ?_ (grid.taxicab_le_distance u v)
  have wide := grid.columns_pos first
  -- the node in the row of the one and at the place of the other
  obtain ⟨corner, row, place⟩ : ∃ corner, corner / c = v / c ∧ corner % c = u % c :=
    ⟨_, (Nat.div_mod_unique wide).mpr ⟨rfl, Nat.mod_lt u wide⟩⟩
  have inside : corner < layout.size := by
    have below : v / c < r := (Nat.div_lt_iff_lt_mul wide).mpr (grid.size ▸ second)
    rw [← row, Nat.div_lt_iff_lt_mul wide, ← grid.size] at below
    exact below
  calc layout.graph.distance u v
    _ ≤ layout.graph.distance u corner + layout.graph.distance corner v := SimpleGraph.edist_triangle
    _ ≤ Nat.dist (u / c) (corner / c) + Nat.dist (corner % c) (v % c) :=
      add_le_add (grid.distance_column first inside place.symm) (grid.distance_row inside second row)
    _ = taxicab c u v := by
      rw [row, place, taxicab, Nat.cast_add]

theorem joined (grid : layout.IsGrid r c) (first : u < layout.size) (second : v < layout.size) :
    Joined layout.graph.edgeSet u v := by
  rw [← Graph.distance_ne_top_iff, grid.distance_eq first second]
  exact ENat.natCast_ne_top _

end IsGrid

end Layout

/-! ## Instances -/

namespace Generated

variable {source : Source} {requested wanted seed : Value} {params : List (String × Value)} {g : Generated}
  {n entropy : Nat}

/-- Parameters by which terminals can be drawn from a number of nodes. -/
structure Draws (params : List (String × Value)) (available : Nat) : Prop where
  unreserved : (params.find? fun param => param.1 ∈ reserved) = none
  seed : checkSeed (seedOf params) = .ok ()
  wanted : ∃ count, sampleSize (wantedOf params) available = .ok count

/-- What an instance that is a grid of a size is like. -/
structure IsGrid (g : Generated) (requested wanted : Value) (n rows columns : Nat) : Prop where
  square : Layout.IsMostSquare n rows columns
  metadata : g.toInstance.field "metadata" = .ok (.dict [("generator", .text "grid_2d"), ("size", requested),
    ("params", .dict [("rows", .int rows), ("cols", .int columns), ("num_terminals", wanted)])])
  /-- Its nodes are the numbers below the size in order, and its edges are those of the layout. -/
  describes : g.toInstance.Describes (Value.numbers n) (g.layout.edges.map Layout.entryOf)
  once : (Layout.joinedPairs g.layout.edges).Nodup
  mem_edges : ∀ u v, (u, v) ∈ g.layout.edges ↔
    u + columns < n ∧ v = u + columns ∨ u < n ∧ u % columns ≠ columns - 1 ∧ v = u + 1
  count : g.layout.edges.length = rows * (columns - 1) + columns * (rows - 1)
  /-- Its graph is built, and the vertex of each number is that number. -/
  graph : Graph.ofInstance g.toInstance = .ok g.layout.graph ∧ g.layout.graph.labels.toList = Value.numbers n
  connected : ∀ u < n, ∀ v < n, Joined g.layout.graph.edgeSet u v
  distance : ∀ u < n, ∀ v < n, g.layout.graph.distance u v = Layout.taxicab columns u v

end Generated

end SteinerTrees
