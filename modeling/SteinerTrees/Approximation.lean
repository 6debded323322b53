import SteinerTrees.Graph.Skeleton
import SteinerTrees.Json.Printer

/-! # Approximate trees

Two baselines that stay within twice the optimum. Both connect the terminals by a minimum spanning tree
of distances between them and replace each of its edges by a shortest path; what closes a cycle and what
ends in a node that is no terminal is removed again. The method of Kou measures between all terminals,
the method of Mehlhorn only where the regions around two terminals touch. -/

namespace SteinerTrees

namespace Approximation

/-- A pair of nodes with its weight. -/
structure Weighted where
  weight : Nat
  source : Nat
  target : Nat
  deriving DecidableEq, Repr

/-- Joins the groups of two nodes: `groups` gives each node the name of its group. -/
def unite (groups : Array Nat) (u v : Nat) : Array Nat :=
  let old := groups.getD u u
  let new := groups.getD v v
  groups.map fun name => if name = old then new else name

/-- Keeps the pairs that join two groups, in order. -/
def joining (groups : Array Nat) : List (Nat × Nat) → List (Nat × Nat)
  | [] => []
  | (u, v) :: rest =>
    if groups.getD u u = groups.getD v v then joining groups rest
    else (u, v) :: joining (unite groups u v) rest

/-- A spanning forest of some pairs of nodes below a size; earlier pairs are preferred. -/
def spanning (size : Nat) (pairs : List (Nat × Nat)) : List (Nat × Nat) := joining (Array.range size) pairs

/-- A spanning forest of least weight. -/
def lightest (size : Nat) (pairs : List Weighted) : List (Nat × Nat) :=
  spanning size ((pairs.mergeSort fun a b => a.weight ≤ b.weight).map fun pair => (pair.source, pair.target))

/-- The pairs of consecutive nodes. -/
def consecutive (path : List Nat) : List (Nat × Nat) := path.zip path.tail

/-- How many pairs a node belongs to. -/
def degree (pairs : List (Nat × Nat)) (v : Nat) : Nat := pairs.countP fun pair => pair.1 == v || pair.2 == v

/-- Removes the pairs that end in a node of degree one which is not to be kept, until there is none. -/
def prune (kept : List Nat) : Nat → List (Nat × Nat) → List (Nat × Nat)
  | 0, pairs => pairs
  | fuel + 1, pairs =>
    let isLoose (v : Nat) : Bool := v ∉ kept && degree pairs v == 1
    prune kept fuel (pairs.filter fun pair => !isLoose pair.1 && !isLoose pair.2)

/-- The pairs on the shortest paths between the ends of some pairs, without cycles and loose ends. -/
def expand (adjacency : Adjacency) (terminals : List Nat) (pairs : List (Nat × Nat)) : List (Nat × Nat) :=
  let steps := pairs.flatMap fun (u, v) => consecutive ((Hops.path? (Hops.explore adjacency u) v).getD [])
  prune terminals steps.length (spanning adjacency.size steps)

/-! ## Kou -/

/-- The pairs of terminals with their distances. -/
def closure (adjacency : Adjacency) : List Nat → List Weighted
  | [] => []
  | u :: rest =>
    let visits := Hops.explore adjacency u
    rest.filterMap (fun v => (Hops.visit? visits v).map fun visit => ⟨visit.hops, u, v⟩) ++ closure adjacency rest

/-- The size of a table that holds some number of members and is kept sparse. -/
def tableSize (members : Nat) : Nat :=
  (List.range members).foldl (fun size fill => if 5 * (fill + 1) < 3 * (size - 1) then size else 4 * size) 8

/-- The place of a whole number in a table. -/
def slotIn (size : Nat) (n : Int) : Int :=
  let folded := n.sign * (n.natAbs % (Nat.pow 2 61 - 1) : Nat)
  (if folded = -1 then -2 else folded) % size

/-- The whole number that a label is equal to. -/
def whole? (label : Value) : Option Int :=
  match label.key with
  | [.number n] => some n
  | _ => none

/-- The order in which terminals are taken: whole numbers by their places in a table, others as given. -/
def inTurn (terminals : List Value) : List Value :=
  let slot (label : Value) : Int := ((whole? label).map (slotIn (tableSize terminals.length))).getD 0
  if terminals.all fun label => (whole? label).isSome then terminals.mergeSort fun a b => slot a ≤ slot b
  else terminals

/-- The pairs of a tree by the method of Kou. The first terminal has to reach every node, and the others
have to be nodes. -/
def kou (s : Skeleton) (terminals : List Value) : Except Failure (List (Nat × Nat)) := do
  let first :: others := inTurn terminals | return []
  if !s.contains first then throw (Failure.nodeNotFound first).written
  if !s.isConnected then throw .notConnected
  if let some stray := others.find? fun label => !s.contains label then throw (.missingKey stray)
  let terminals := terminals.filterMap s.indexOf?
  return expand s.adjacency terminals (lightest s.size (closure s.adjacency terminals))

/-! ## Mehlhorn -/

/-- The distance to the nearest terminal and that terminal; of several the first. -/
def nearer (v : Nat) (best : Option (Nat × Nat)) (entry : Nat × Array (Option Hops.Visit)) : Option (Nat × Nat) :=
  match Hops.visit? entry.2 v, best with
  | some visit, some (hops, _) => if visit.hops < hops then some (visit.hops, entry.1) else best
  | some visit, none => some (visit.hops, entry.1)
  | none, _ => best

/-- The nearest terminal of a node, with its distance. -/
def region (s : Skeleton) (searches : List (Nat × Array (Option Hops.Visit))) (v : Nat) :
    Except Failure (Nat × Nat) :=
  match searches.foldl (nearer v) none with
  | some found => .ok found
  | none => .error (.missingKey (s.node v))

/-- The pair of terminals whose regions a pair of nodes joins, with the length of the way across. -/
def across (regions : Array (Nat × Nat)) (pair : Nat × Nat) : Weighted :=
  let (near, source) := regions.getD pair.1 (0, 0)
  let (far, target) := regions.getD pair.2 (0, 0)
  ⟨near + 1 + far, source, target⟩

/-- The pairs of a tree by the method of Mehlhorn. -/
def mehlhorn (s : Skeleton) (terminals : List Value) : Except Failure (List (Nat × Nat)) := do
  let terminals ← terminals.mapM fun label =>
    match s.indexOf? label with
    | some v => Except.ok v
    | none => Except.error (Failure.nodeNotFound label).written
  let searches := terminals.map fun v => (v, Hops.explore s.adjacency v)
  let regions ← (List.range s.size).mapM (region s searches)
  return expand s.adjacency terminals (lightest s.size (s.pairs.map (across regions.toArray)))

/-! ## Solutions -/

/-- The bonds of a tree at its labelled nodes. -/
def treeBonds (s : Skeleton) (nodes : List (Nat × Value)) (tree : List (Nat × Nat)) : List Bond :=
  (s.bondsAt [] nodes).filter fun bond => tree.any (Skeleton.isPair bond.ends.1 bond.ends.2)

/-- The nodes of a tree with their labels. If they are fewer than half of all nodes, their labels are those
by which they were first joined. -/
def covered (s : Skeleton) (tree : List (Nat × Nat)) : List (Nat × Value) :=
  let nodes := ((List.range s.size).filter fun v => degree tree v != 0).map fun v => (v, s.node v)
  if s.size ≤ 2 * nodes.length then nodes
  else
    let ends := (treeBonds s nodes tree).flatMap fun bond =>
      [(bond.ends.1, bond.labels.1), (bond.ends.2, bond.labels.2)]
    nodes.map fun node => (ends.find? (·.1 == node.1)).getD node

/-- Two labels as an edge, in the order of their texts. -/
def edgeOf (bond : Bond) : Value := .list (Json.sortByText [bond.labels.1, bond.labels.2])

def solution (vertices edges : List Value) (metadata : List (String × Value)) : Value :=
  .dict [("solution", .dict [("vertices", .list vertices), ("edges", .list edges)]), ("metadata", .dict metadata)]

/-- The pairs of a tree by the method of a given name, or by the usual one if there is no name. -/
def treeBy (method : Value) (s : Skeleton) (terminals : List Value) : Except Failure (List (Nat × Nat)) := do
  match ← method.asLabel with
  | .null | .text "mehlhorn" => mehlhorn s terminals
  | .text "kou" => kou s terminals
  | other => throw (Failure.unknownMethod other).written

/-- An approximate solution of an instance. Fewer than two terminals need no edges. -/
def solve (method problem : Value) : Except Failure Value := do
  let s ← (← (← problem.field "nodes").items).foldlM Skeleton.addDescribed {}
  let s ← (← (← problem.field "edges").items).foldlM Skeleton.addEdge s
  let terminals ← (← problem.get "terminals" (.list [])).asSet
  if terminals.length < 2 then return solution terminals [] []
  else
    let tree ← treeBy method s terminals
    let nodes := covered s tree
    return solution (Json.sortByText (nodes.map (·.2))) (Json.sortByText ((treeBonds s nodes tree).map edgeOf))
      [("method", method)]

end Approximation

end SteinerTrees
