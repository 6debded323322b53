import SteinerTrees.Graph.Skeleton
import SteinerTrees.Json.Printer

/-! # Checking solutions

A solution lists vertices and perhaps edges. It is feasible if its vertices hold all terminals and are
nodes of the instance, and if its edges form a tree on them; a solution without edges is judged by the
subgraph that its vertices induce, which has to be connected. The objective is the number of different
edges, or one less than the number of vertices listed. The first rule that is broken is the reason
against a solution. -/

namespace SteinerTrees

/-- Why a solution is not feasible. -/
inductive Objection where
  | missingTerminals (labels : List Value)
  | unknownVertices (labels : List Value)
  | foreignEdge (source target : Value)
  | strayEdge (source target : Value)
  | disconnected
  | cyclic
  deriving Repr

/-- The outcome of a check. An objection comes with the number of edges that were found. -/
inductive Verdict where
  | feasible (edges : Nat)
  | infeasible (objection : Objection) (edges : Nat)
  deriving Repr

namespace Objection

/-- Labels in the order of their texts. -/
def sortLabels (labels : List Value) : List Value :=
  let named := (Json.sortByText labels).map fun label => (label.display, label)
  (named.mergeSort fun a b => Text.precedes a.1 b.1).map (·.2)

def message : Objection → String
  | missingTerminals labels => "Terminals missing from solution: " ++ (Value.list (sortLabels labels)).shown
  | unknownVertices labels => "Vertices not in instance: " ++ (Value.list (sortLabels labels)).shown
  | foreignEdge source target => s!"Edge ({source.display}, {target.display}) not in instance"
  | strayEdge source target => s!"Edge ({source.display}, {target.display}) leaves the vertex set"
  | disconnected => "Solution subgraph is not connected"
  | cyclic => "Solution edges contain a cycle"

/-- The labels that the message of an objection shows. -/
def shownLabels : Objection → List Value
  | missingTerminals labels | unknownVertices labels => labels
  | foreignEdge source target | strayEdge source target => [source, target]
  | disconnected | cyclic => []

end Objection

namespace Verdict

def isFeasible : Verdict → Bool
  | feasible _ => true
  | infeasible .. => false

def toValue : Verdict → Value
  | feasible edges => .dict [("feasible", .bool true), ("edge_count", .float (.ofInt edges))]
  | infeasible objection edges =>
    .dict [("feasible", .bool false), ("reason", .text objection.message), ("edge_count", .int edges)]

/-- The verdict of an objection, unless its message cannot be written. -/
def against (objection : Objection) (edges : Nat) : Except Failure Verdict :=
  if objection.shownLabels.all (·.isWritable) then .ok (.infeasible objection edges) else .error .unwritable

end Verdict

namespace Solution

/-- The part of a solution that holds its vertices and edges. -/
def body (solution : Value) : Except Failure Value := solution.get "solution" (.dict [])

/-- Whether a body lists edges. -/
def listsEdges (body : Value) : Except Failure Bool :=
  match body with
  | .dict entries => return (Value.lookup? "edges" entries).isSome
  | .list items | .tuple items => return (Value.text "edges").isIn items
  | .text s => return (s.splitOn "edges").length != 1
  | other => throw (.misuse (.notMember other))

/-- Whether two lists of labels are equal as sets. -/
def sameMembers (a b : List Value) : Bool := a.all (·.isIn b) && b.all (·.isIn a)

/-- The sets that occur in a list, each once. -/
def distinctSets : List (List Value) → List (List Value)
  | [] => []
  | set :: rest => set :: (distinctSets rest).filter fun other => !sameMembers set other

/-- The objective of a solution. -/
def objective (solution : Value) : Except Failure Nat := do
  let body ← body solution
  if ← listsEdges body then
    let edges ← (← body.field "edges").items
    return (distinctSets (← edges.mapM Value.asSet)).length
  else
    return (← (← body.get "vertices" (.list [])).length) - 1

/-- Adds the listed edges to the plain graph on the vertices of a solution, up to the first that is no
edge of the instance or has an end outside. -/
def addListed (graph : Skeleton) (vertices : List Value) (tree : Skeleton) :
    List Value → Except Failure (Skeleton ⊕ Objection)
  | [] => return .inl tree
  | edge :: rest => do
    let (source, target) ← edge.asPair
    if !(← graph.hasEdge source target) then return .inr (.foreignEdge source target)
    else if !source.isIn vertices || !target.isIn vertices then return .inr (.strayEdge source target)
    else addListed graph vertices (← tree.addPair source target) rest

/-- Judges the plain graph of a solution, which has to be a tree if the solution lists its edges. -/
def judge (solution : Value) (listed : Bool) (tree : Skeleton) : Except Failure Verdict := do
  if tree.size ≠ 0 ∧ !tree.isConnected then Verdict.against .disconnected tree.bonds.size
  else if listed ∧ tree.size ≠ 0 ∧ !tree.isTree then Verdict.against .cyclic tree.bonds.size
  else return .feasible (← objective solution)

/-- Checks a solution of an instance. -/
def check (problem solution : Value) : Except Failure Verdict := do
  let body ← body solution
  let vertices ← (← body.get "vertices" (.list [])).asSet
  let terminals ← (← problem.get "terminals" (.list [])).asSet
  match terminals.filter fun terminal => !terminal.isIn vertices with
  | missing@(_ :: _) => Verdict.against (.missingTerminals missing) 0
  | [] =>
    let nodes ← problem.get "nodes" (.list [])
    let graph ← (← nodes.items).foldlM Skeleton.addDescribed {}
    let graph ← (← (← problem.get "edges" (.list [])).items).foldlM Skeleton.addEdge graph
    match vertices.filter fun vertex => !graph.contains vertex with
    | unknown@(_ :: _) => Verdict.against (.unknownVertices unknown) 0
    | [] =>
      if ← listsEdges body then
        match ← addListed graph vertices { nodes := vertices.toArray } (← (← body.field "edges").items) with
        | .inl tree => judge solution true tree
        | .inr objection => Verdict.against objection 0
      else judge solution false (graph.induced vertices)

end Solution

end SteinerTrees
