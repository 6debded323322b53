import SteinerTrees.Log
import SteinerTrees.Solver.Tree

/-! # The exact solver

A query names terminals by label. Equal labels count once, the first occurrence wins, and every label is
looked up before anything else is checked. No terminal needs no tree, one terminal is a tree of its own,
and otherwise the tree of least cost over all vertices is taken, the lowest index first. The log of a
query tells its size and its answer. -/

namespace SteinerTrees

/-- How many terminals a query may have, and whether merged rows are relaxed. -/
structure SolverSettings where
  maxTerminals : Int := 16
  relaxation : Bool := true
  deriving DecidableEq, Repr

namespace Graph

/-- The vertices of the distinct labels, in the order of first occurrence. -/
def resolveTerminals (g : Graph) (labels : List Value) : Except Failure (List Nat) := do
  let labels := Value.distinct (← labels.mapM Value.asLabel)
  match labels.filter fun label => (g.indexOf? label).isNone with
  | [] => return labels.filterMap g.indexOf?
  | missing => throw (Failure.terminalsNotFound missing).written

/-- The finished table of a list of terminals. -/
def costTable (g : Graph) (relaxation : Bool) (terminals : List Nat) : Table :=
  (Table.seeded g.adjacency terminals).merged relaxation terminals.length g.size g.adjacency

/-- The set of all terminals. -/
def fullMask (terminals : List Nat) : Nat := Nat.pow 2 terminals.length - 1

/-- The best tree of two or more terminals. -/
def bestTree (g : Graph) (relaxation : Bool) (terminals : List Nat) : Except Failure Tree := do
  let table := g.costTable relaxation terminals
  let row := table.row (fullMask terminals * g.size) g.size
  match cheapest? row g.vertices with
  | none => throw (Failure.disconnected (terminals.map g.label)).written
  | some hub =>
    let tree ← table.tree g terminals (fullMask terminals) hub
    return { tree with cost := ((row.getD hub {}).cost).getD 0 }

def sizeEntry (g : Graph) (terminals : List Nat) : LogEntry :=
  ⟨.debug, s!"Solving {terminals.length} terminals over {g.size} vertices " ++
    s!"({Nat.pow 2 terminals.length * g.size} DP cells)"⟩

/-- The entry of a tree. An entry whose hub cannot be written is lost. -/
def treeEntries (g : Graph) (tree : Tree) : Log :=
  let hub := (tree.hub.map g.label).getD .null
  if hub.isWritable then
    [⟨.info, s!"Steiner tree over {tree.terminals.length} terminals: {tree.cost} edges, " ++
      s!"{tree.vertices.length} vertices (hub {hub.shown})"⟩]
  else []

/-- The tree of resolved terminals, and the log of the query. -/
def solveResolved (g : Graph) (settings : SolverSettings) (terminals : List Nat) : Log × Except Failure Tree :=
  match terminals with
  | [] => ([], .ok { terminals := [] })
  | first :: rest =>
    if settings.maxTerminals < terminals.length then
      ([], .error (Failure.tooManyTerminals terminals.length settings.maxTerminals).written)
    else if rest = [] then ([], .ok { terminals, vertices := [first], hub := first })
    else
      match g.bestTree settings.relaxation terminals with
      | .ok tree => (g.sizeEntry terminals :: g.treeEntries tree, .ok tree)
      | .error failure => ([g.sizeEntry terminals], .error failure)

/-- Answers a query, with its log. -/
def solveLogged (g : Graph) (settings : SolverSettings) (terminals : List Value) : Log × Except Failure Tree :=
  match g.resolveTerminals terminals with
  | .ok terminals => g.solveResolved settings terminals
  | .error failure => ([], .error failure)

/-- A minimum Steiner tree of the terminals with the given labels. -/
def solve (g : Graph) (settings : SolverSettings) (terminals : List Value) : Except Failure Tree :=
  (g.solveLogged settings terminals).2

end Graph

end SteinerTrees
