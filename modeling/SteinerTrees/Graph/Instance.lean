import SteinerTrees.Graph.Basic
import SteinerTrees.Log

/-! # Graphs and instances

An instance is a dictionary with a list of nodes, a list of edges, each a dictionary with a source, a
target and perhaps a name, and a list of terminals. A graph is built from it by adding the nodes that
are new, then the edges; the way back lists vertices and links in order. -/

namespace SteinerTrees.Graph

/-- A graph with the labels that it does not have yet. -/
def addNodes (g : Graph) : List Value → Except Failure Graph
  | [] => return g
  | label :: rest => do
    let label ← label.asLabel
    addNodes (if (g.indexOf? label).isSome then g else g.push label) rest

/-- A graph with the edges that a list of dictionaries describes. -/
def addEdges (g : Graph) : List Value → Except Failure Graph
  | [] => return g
  | entry :: rest => do
    let source ← entry.field "source"
    let target ← entry.field "target"
    let name ← entry.get "name" .null
    match g.addEdge source target name with
    | (g, .ok _) => addEdges g rest
    | (_, .error failure) => throw failure

def ofInstance (problem : Value) : Except Failure Graph := do
  let nodes ← (← problem.get "nodes" (.list [])).items
  let g ← empty.addNodes nodes
  let edges ← (← problem.get "edges" (.list [])).items
  g.addEdges edges

/-- The log entry for a graph that was built from an instance. -/
def loadedEntry (g : Graph) : LogEntry := ⟨.debug, s!"Loaded {g.render} from instance dict"⟩

/-- The dictionary of an edge. -/
def edgeEntry (e : Edge) : Value :=
  .dict [("source", e.source), ("target", e.destination), ("name", e.name)]

/-- The description of where an instance comes from. -/
def customMetadata (size : Nat) : Value :=
  .dict [("generator", .text "custom"), ("size", .int size), ("params", .dict [])]

def toInstance (g : Graph) (terminals : List Value) : Value :=
  .dict [("nodes", .list g.labels.toList), ("edges", .list (g.edges.map edgeEntry)),
    ("terminals", .list terminals), ("metadata", customMetadata g.size)]

/-- The edges, each listed at the end that comes first among the vertices; of these, those of one vertex
in the order of its neighbours. -/
def edgesByVertex (g : Graph) : List Edge :=
  g.vertices.flatMap fun u =>
    (g.neighbors u).filterMap fun v =>
      if u ≤ v then (g.linkBetween? u v).map fun link => ⟨link.name, g.label u, g.label v⟩ else none

/-- The labels as nodes of a plain graph, in which `null` is no node. -/
def asNodes (g : Graph) : Except Failure (List Value) :=
  if g.labels.any (·.same .null) then throw .nullNode else return g.labels.toList

/-- Whether two graphs have equal sets of edges. -/
def sameEdges (a b : Graph) : Except Failure Bool := do
  let ours ← a.edges.mapM fun e => do let _ ← e.name.asLabel; return e
  let theirs ← b.edges.mapM fun e => do let _ ← e.name.asLabel; return e
  return ours.length == theirs.length && ours.all fun e => theirs.any (e.equal ·)

end SteinerTrees.Graph
