import SteinerTrees.Solver.Relax

/-! # Merging

A tree that connects a set of two or more terminals and a vertex at which it branches consists of a tree
for one part of the set and a tree for the rest, both at that vertex. Merging goes through the sets in
ascending order, so the rows of the parts are final. The parts of a set are tried from the largest down,
and a later part replaces an earlier one only if it costs less. -/

namespace SteinerTrees

/-- The nonzero members of the descending chain of submasks of `mask` that starts at `sub`. -/
def submasksFrom (mask sub : Nat) : List Nat :=
  if sub = 0 then [] else sub :: submasksFrom mask ((sub - 1) &&& mask)
termination_by sub
decreasing_by
  have : (sub - 1) &&& mask ≤ sub - 1 := Nat.and_le_left
  omega

/-- The nonempty proper submasks of a mask, in descending order. -/
def submasks (mask : Nat) : List Nat := submasksFrom mask ((mask - 1) &&& mask)

/-- Whether a mask has at most one member. -/
def isSingle (mask : Nat) : Bool := mask &&& (mask - 1) == 0

namespace Table

/-- Takes the part `sub` of the set `mask` and the rest at the vertex `v` if they cost less. -/
def mergePart (t : Table) (width mask v : Nat) (best : Cell) (sub : Nat) : Cell :=
  match (t.cell (sub * width + v)).cost, (t.cell ((mask ^^^ sub) * width + v)).cost with
  | some a, some b => if costBelow (a + b) best.cost then ⟨some (a + b), .merge, sub⟩ else best
  | _, _ => best

/-- The cell of a set and a vertex after all its parts. -/
def mergeCell (t : Table) (width mask v : Nat) : Cell :=
  (submasks mask).foldl (t.mergePart width mask v) (t.cell (mask * width + v))

/-- A table with the row of one set merged and, if asked for, relaxed. -/
def mergeRow (relaxation : Bool) (width : Nat) (adjacency : Adjacency) (t : Table) (mask : Nat) : Table :=
  if isSingle mask then t
  else
    let merged := t.writeRow (mask * width) ((List.range width).map (t.mergeCell width mask))
    if relaxation then merged.relax (mask * width) width adjacency else merged

/-- A table with the rows of all sets of `terminals` terminals merged. -/
def merged (t : Table) (relaxation : Bool) (terminals width : Nat) (adjacency : Adjacency) : Table :=
  (List.range (Nat.pow 2 terminals)).foldl (mergeRow relaxation width adjacency) t

end Table

end SteinerTrees
