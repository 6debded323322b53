import SteinerTrees.Graph.Hops

/-! # Cost tables

The exact solver keeps one cell for every set of terminals and every vertex. A set is a number whose
bits are its members, and the cells of one set form a row: cell `mask · width + v` belongs to the set
`mask` and the vertex `v`. A cell holds the fewest edges known for a tree that connects the set and the
vertex, and how that tree is put together. No cost means that no tree is known. -/

namespace SteinerTrees

/-- How the tree of a cell is put together: not at all, by a path from one terminal, by joining the trees
of two parts of the set, or by one more edge. -/
inductive Mark where
  | unset
  | direct
  | merge
  | move
  deriving DecidableEq, Repr, Inhabited

/-- `arg` is the vertex of the terminal after `direct`, one part of the set after `merge`, and the
neighbour after `move`. -/
structure Cell where
  cost : Option Int := none
  mark : Mark := .unset
  arg : Nat := 0
  deriving DecidableEq, Repr, Inhabited

abbrev Table := Array Cell

/-- Whether a cost is below another, where no cost is above all. -/
def costBelow (a : Int) : Option Int → Bool
  | some b => a < b
  | none => true

namespace Table

/-- The cell at a position; outside the table there is only the empty cell. -/
def cell (t : Table) (i : Nat) : Cell := t.getD i {}

/-- The cells of one row. -/
def row (t : Table) (base width : Nat) : Array Cell :=
  ((List.range width).map fun v => t.cell (base + v)).toArray

/-- Replaces the cells from a position on. -/
def writeRow (t : Table) (base : Nat) (cells : List Cell) : Table :=
  match cells with
  | [] => t
  | cell :: rest => writeRow (t.set! base cell) (base + 1) rest

def blank (terminals width : Nat) : Table := Array.replicate (Nat.pow 2 terminals * width) {}

/-! ## Seeding -/

/-- The row of a single terminal: the hops to each vertex that can be reached from it. -/
def seedRow (adjacency : Adjacency) (terminal : Nat) : List Cell :=
  let visits := Hops.explore adjacency terminal
  (List.range adjacency.size).map fun v =>
    match Hops.visit? visits v with
    | some visit => ⟨some visit.hops, .direct, terminal⟩
    | none => {}

/-- Fills the rows of single terminals, the first of which has number `i`. -/
def seedFrom (adjacency : Adjacency) (t : Table) (i : Nat) : List Nat → Table
  | [] => t
  | terminal :: rest =>
    seedFrom adjacency (t.writeRow (Nat.pow 2 i * adjacency.size) (seedRow adjacency terminal)) (i + 1) rest

def seeded (adjacency : Adjacency) (terminals : List Nat) : Table :=
  seedFrom adjacency (blank terminals.length adjacency.size) 0 terminals

end Table

end SteinerTrees
