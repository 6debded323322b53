import SteinerTrees.Graph.Skeleton
import SteinerTrees.Value.Number

/-! # Lattices

The plain graph of a grid has cells for nodes, which are pairs of a row and a column. Each cell is joined with the
one above it, then each with the one on its left. Numbering the cells in their order gives the nodes new labels, and
the edges are listed again at the first of their ends. -/

namespace SteinerTrees.Skeleton

/-- The cell in a row and a column. -/
def cell (row column : Value) : Value := .tuple [row, column]

/-- The pairs of a value and the next one. -/
def consecutive (values : List Value) : List (Value × Value) := values.zip values.tail

/-- Adds labels that need not be new. -/
def addNodes (s : Skeleton) (labels : List Value) : Except Failure Skeleton := labels.foldlM addNode s

/-- Joins pairs of labels. -/
def addPairs (s : Skeleton) (pairs : List (Value × Value)) : Except Failure Skeleton :=
  pairs.foldlM (fun s pair => s.addPair pair.1 pair.2) s

/-- The cells of a grid, row by row. -/
def cells (rows columns : List Value) : List Value := rows.flatMap fun row => columns.map (cell row)

/-- The cells that are joined downwards: each with the one above it. -/
def vertical (rows columns : List Value) : List (Value × Value) :=
  (consecutive rows).flatMap fun (above, row) => columns.map fun column => (cell row column, cell above column)

/-- The cells that are joined sideways: each with the one on its left. -/
def horizontal (rows columns : List Value) : List (Value × Value) :=
  rows.flatMap fun row => (consecutive columns).map fun (left, column) => (cell row column, cell row left)

/-- The plain graph of a grid. -/
def lattice (rows columns : List Value) : Except Failure Skeleton := do
  let s ← addNodes {} (cells rows columns)
  let s ← s.addPairs (vertical rows columns)
  s.addPairs (horizontal rows columns)

/-- The order of pairs by their first parts, then by their second ones. -/
def cellPrecedes : Value → Value → Bool
  | .tuple [a, b], .tuple [c, d] => a.precedes c && (!c.precedes a || b.precedes d)
  | _, _ => false

/-- The number of a label in a list; a label that is not listed stays. -/
def numberIn (ordered : List Value) (label : Value) : Value :=
  match ordered.findIdx? (label.same ·) with
  | some n => .int n
  | none => label

/-- The bonds, each at the first of its ends. -/
def listed (s : Skeleton) : List Bond := s.bondsAt [] ((List.range s.size).map fun v => (v, s.node v))

/-- The plain graph with other labels. -/
def relabel (s : Skeleton) (label : Value → Value) : Except Failure Skeleton := do
  let renamed ← addNodes {} (s.nodes.toList.map label)
  renamed.addPairs (s.listed.map fun bond => (label bond.labels.1, label bond.labels.2))

/-- The plain graph on the numbers of its cells. -/
def numbered (s : Skeleton) : Except Failure Skeleton :=
  s.relabel (numberIn (s.nodes.toList.mergeSort cellPrecedes))

end SteinerTrees.Skeleton
