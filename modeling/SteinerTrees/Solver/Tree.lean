import SteinerTrees.Json.Printer
import SteinerTrees.Solver.Merge

/-! # Trees

A tree is read off a table by following the marks from one cell: a path to a terminal, both parts of a
merged set, or the neighbour and the edge to it. Each vertex and each link counts once, a link at its first
use. -/

namespace SteinerTrees

/-- A tree of a graph: its terminals in the order asked for, its vertices in ascending order, its links in
the order of their first use, its cost and the vertex from which it was read off. -/
structure Tree where
  terminals : List Nat
  vertices : List Nat := []
  links : List Link := []
  cost : Int := 0
  hub : Option Nat := none
  deriving Repr

namespace Tree

/-- The vertices that are not terminals. -/
def steinerPoints (tree : Tree) : List Nat := tree.vertices.filter fun v => v ∉ tree.terminals

/-- The tree as a solution of its instance. Labels of sets are listed in the order of their texts. -/
def toSolution (tree : Tree) (g : Graph) : Value :=
  .dict [
    ("solution", .dict [
      ("vertices", .list (Json.sortByText (tree.vertices.map g.label))),
      ("edges", .list (tree.links.map fun link => .list [g.label link.source, g.label link.target]))]),
    ("metadata", .dict [
      ("cost", .int tree.cost),
      ("hub", (tree.hub.map g.label).getD .null),
      ("steiner_points", .list (Json.sortByText (tree.steinerPoints.map g.label)))])]

end Tree

/-- The vertices and the links used so far. A step between two vertices without a link is `none`. -/
structure Trail where
  vertices : List Nat := []
  steps : List (Option Link) := []

namespace Trail

def visit (trail : Trail) (v : Nat) : Trail := { trail with vertices := trail.vertices ++ [v] }

/-- Uses the link between two vertices. A name that cannot be hashed makes the link unusable. -/
def use (g : Graph) (trail : Trail) (u v : Nat) : Except Failure Trail := do
  let link := g.linkBetween? u v
  if let some link := link then
    let _ ← link.name.asLabel
  return { trail with steps := trail.steps ++ [link] }

/-- Uses the links between consecutive vertices. -/
def usePath (g : Graph) (trail : Trail) : List Nat → Except Failure Trail
  | u :: v :: rest => do usePath g (← trail.use g u v) (v :: rest)
  | _ => return trail

/-- Whether two steps are the same: over one link, or both over none. -/
def sameStep : Option Link → Option Link → Bool
  | some a, some b => b.joins a.source a.target
  | none, none => true
  | _, _ => false

/-- Drops the steps that are the same as an earlier one. -/
def distinctSteps : List (Option Link) → List (Option Link)
  | [] => []
  | step :: rest => step :: (distinctSteps rest).filter fun other => !sameStep step other

end Trail

/-- The vertex with an index, which has to be one of a graph. -/
def Graph.vertexAt (g : Graph) (v : Nat) : Except Failure Nat :=
  if v < g.size then .ok v else .error (.noSuchIndex v)

/-- The cell of a set and a vertex, which has to lie in the table. -/
def Table.cellAt (t : Table) (g : Graph) (mask v : Nat) : Except Failure Cell :=
  match t[mask * g.size + v]? with
  | some cell => .ok cell
  | none => .error (.noSuchIndex (mask * g.size + v))

/-- Follows the marks of the cells on a stack. -/
def follow (g : Graph) (adjacency : Adjacency) (t : Table) :
    Nat → List (Nat × Nat) → Trail → Except Failure Trail
  | _, [], trail => return trail
  | 0, _ :: _, _ => throw .endlessTrail
  | fuel + 1, (mask, v) :: stack, trail =>
    if mask = 0 then follow g adjacency t fuel stack trail
    else do
      let trail := trail.visit v
      let cell ← t.cellAt g mask v
      match cell.mark with
      | .direct =>
        let terminal ← g.vertexAt cell.arg
        match Hops.path? (Hops.explore adjacency terminal) v with
        | some path =>
          follow g adjacency t fuel stack (← ({ trail with vertices := trail.vertices ++ path }).usePath g path)
        | none => throw (Failure.unreachable (g.label terminal) (g.label v)).written
      | .merge => follow g adjacency t fuel ((cell.arg, v) :: (mask ^^^ cell.arg, v) :: stack) trail
      | .move =>
        let neighbor ← g.vertexAt cell.arg
        follow g adjacency t fuel ((mask, neighbor) :: stack) (← (trail.visit neighbor).use g v neighbor)
      | .unset => throw (Failure.noRecordedState mask (g.label v)).written

namespace Table

/-- The trail from the cell of a set and a vertex, each step at its first use. No trail through distinct
cells is longer than the fuel given. -/
def trail (t : Table) (g : Graph) (mask hub : Nat) : Except Failure Trail := do
  let hub ← g.vertexAt hub
  let trail ← follow g g.adjacency t ((t.size + 1) * (t.size + 1)) [(mask, hub)] {}
  return { trail with steps := Trail.distinctSteps trail.steps }

/-- The tree of the cell of a set and a vertex, its cost left open. Every step has to use a link. -/
def tree (t : Table) (g : Graph) (terminals : List Nat) (mask hub : Nat) : Except Failure Tree := do
  let trail ← t.trail g mask hub
  match trail.steps.mapM id with
  | some links => return { terminals, hub, links, vertices := g.vertices.filter (· ∈ trail.vertices) }
  | none => throw .missingStep

end Table

end SteinerTrees
