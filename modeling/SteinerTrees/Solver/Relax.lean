import SteinerTrees.Solver.Table

/-! # Relaxing a row

If a tree reaches a vertex, one more edge reaches each of its neighbours. Relaxing a row applies this
until nothing improves: the open vertex of least cost is settled, the lower index first among equal
costs, and its neighbours take its cost plus one where that is less than what they have. -/

namespace SteinerTrees

/-- The cheaper of two vertices of a row; among equal costs, or if neither has a cost, the first. -/
def cheaper (row : Array Cell) (u v : Nat) : Nat :=
  match (row.getD v {}).cost with
  | some cost => if costBelow cost (row.getD u {}).cost then v else u
  | none => u

/-- The first vertex of least cost in a list. -/
def cheapest? (row : Array Cell) : List Nat → Option Nat
  | [] => none
  | v :: rest =>
    let best := rest.foldl (cheaper row) v
    if (row.getD best {}).cost.isSome then some best else none

/-- Takes the way to `w` over `u`, whose cost is given, if it is less. -/
def relaxEdge (u : Nat) (cost : Int) (row : Array Cell) (w : Nat) : Array Cell :=
  if costBelow (cost + 1) (row.getD w {}).cost then row.set! w ⟨some (cost + 1), .move, u⟩ else row

/-- Takes the way over `u` to each of its neighbours. -/
def relaxFrom (adjacency : Adjacency) (row : Array Cell) (u : Nat) : Array Cell :=
  match (row.getD u {}).cost with
  | some cost => (adjacency.getD u []).foldl (relaxEdge u cost) row
  | none => row

/-- Settles the open vertices; one is settled for each unit of fuel. -/
def settle (adjacency : Adjacency) : Nat → Array Cell → List Nat → Array Cell
  | 0, row, _ => row
  | fuel + 1, row, unsettled =>
    match cheapest? row unsettled with
    | none => row
    | some u => settle adjacency fuel (relaxFrom adjacency row u) (unsettled.erase u)

/-- A row after all improvements. -/
def relaxRow (adjacency : Adjacency) (row : Array Cell) : Array Cell :=
  settle adjacency row.size row (List.range row.size)

/-- Relaxes the row of a table that starts at `base`. -/
def Table.relax (t : Table) (base width : Nat) (adjacency : Adjacency) : Table :=
  t.writeRow base (relaxRow adjacency (t.row base width)).toList

end SteinerTrees
