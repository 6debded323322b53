import SteinerTrees.Graph.Hops
import SteinerTrees.Graph.Instance
import SteinerTrees.Solver.Solve

/-! # Stores

A store is a graph with its indexes. One directory finds the vertex with a label, another its position, and
each vertex has a directory of its neighbours with the links to them. Nothing is searched for among the links,
so every index has to be brought up to date whenever a vertex or a link is added. The graph of a store is
what remains when the indexes are left out. -/

namespace SteinerTrees

/-- Entries under labels, in the order in which the labels were first entered. -/
abbrev Directory (α : Type) := List (Value × α)

namespace Directory

variable {α : Type}

/-- The entry under a label. -/
def lookup? (directory : Directory α) (label : Value) : Option α :=
  (directory.find? fun entry => label.same entry.1).map (·.2)

/-- Makes an entry. Under a label that has one, the new entry takes its place, and the old label stays. -/
def enter (label : Value) (entry : α) : Directory α → Directory α
  | [] => [(label, entry)]
  | (other, old) :: rest =>
    if label.same other then (other, entry) :: rest else (other, old) :: enter label entry rest

end Directory

/-- What a vertex is asked for by: its label, or a vertex object with that label, which need not be the one
that is stored. -/
inductive Ref where
  | label (label : Value)
  | object (label : Value)
  deriving Repr

/-- The label of the vertex that is asked for. -/
def Ref.named : Ref → Value
  | label name | object name => name

/-- A vertex with its neighbours, each with the link to it, in the order in which they were joined. -/
structure StoredVertex where
  label : Value := .null
  adjacency : Directory (Nat × Link) := []
  deriving Repr

structure Store where
  vertices : Array StoredVertex := #[]
  byLabel : Directory Nat := []
  positions : Directory Nat := []
  links : Array Link := #[]
  deriving Repr

namespace Store

def empty : Store := {}

def size (s : Store) : Nat := s.vertices.size

def vertexAt (s : Store) (v : Nat) : StoredVertex := s.vertices.getD v {}

/-- The graph without its indexes. -/
def graph (s : Store) : Graph := ⟨s.vertices.map (·.label), s.links⟩

/-- A link with the labels of its ends. -/
def edge (s : Store) (link : Link) : Edge :=
  ⟨link.name, (s.vertexAt link.source).label, (s.vertexAt link.target).label⟩

/-! ## Lookup -/

/-- The vertex that a label is the key of. A vertex object is the key of none. -/
def get? (s : Store) : Ref → Except Failure (Option Nat)
  | .label label => return s.byLabel.lookup? (← label.asLabel)
  | .object label => do
    let _ ← label.asLabel
    return none

/-- The vertex that is asked for. -/
def resolve (s : Store) (ref : Ref) : Except Failure Nat := do
  match s.byLabel.lookup? (← ref.named.asLabel) with
  | some v => return v
  | none => throw (Failure.vertexNotFound ref.named).written

/-- The position of the vertex that is asked for. -/
def indexOf (s : Store) (ref : Ref) : Except Failure Nat := do
  match s.positions.lookup? (← ref.named.asLabel) with
  | some position => return position
  | none => throw (Failure.vertexNotFound ref.named).written

/-- Whether the vertex that is asked for is stored. -/
def contains (s : Store) (ref : Ref) : Except Failure Bool :=
  return (s.byLabel.lookup? (← ref.named.asLabel)).isSome

/-- The link that a vertex has to a neighbour. -/
def linkTo? (s : Store) (u v : Nat) : Option Link :=
  ((s.vertexAt u).adjacency.lookup? (s.vertexAt v).label).map (·.2)

def neighbors (s : Store) (ref : Ref) : Except Failure (List Nat) :=
  return (s.vertexAt (← s.resolve ref)).adjacency.map (·.2.1)

/-- The link that joins two vertices. -/
def edgeBetween (s : Store) (a b : Ref) : Except Failure (Option Link) := do
  let u ← s.resolve a
  let v ← s.resolve b
  return s.linkTo? u v

/-! ## Adding -/

/-- Adds a vertex, which goes to the end. -/
def addVertex (s : Store) (label : Value) : Except Failure (Store × Nat) := do
  let label ← label.asLabel
  if (s.byLabel.lookup? label).isSome then throw (Failure.duplicateVertex label).written
  else
    let v := s.size
    return ({ s with
      vertices := s.vertices.push { label }
      byLabel := s.byLabel.enter label v
      positions := s.positions.enter label v }, v)

/-- The vertex that was found under a label, or a new one with that label. -/
def ensure (s : Store) (label : Value) : Option Nat → Except Failure (Store × Nat)
  | some v => .ok (s, v)
  | none => s.addVertex label

/-- Enters one vertex among the neighbours of another. -/
def connect (s : Store) (u v : Nat) (link : Link) : Store :=
  { s with vertices := s.vertices.modify u fun vertex =>
      { vertex with adjacency := vertex.adjacency.enter (s.vertexAt v).label (v, link) } }

/-- Adds a link and enters it at both ends. -/
def link (s : Store) (name : Value) (u v : Nat) : Store :=
  let link : Link := ⟨name, u, v⟩
  ({ s with links := s.links.push link }.connect u v link).connect v u link

/-- Links two vertices, if there is a name for the link. -/
def linkNamed (s : Store) (name : Except Failure Value) (u v : Nat) : Store × Except Failure Edge :=
  match name with
  | .ok name => (s.link name u v, .ok (s.edge ⟨name, u, v⟩))
  | .error failure => (s, .error failure)

/-- Whether two vertices were both found and are joined. -/
def areLinked (s : Store) : Option Nat → Option Nat → Bool
  | some u, some v => (s.linkTo? u v).isSome
  | _, _ => false

/-- Connects two labels, adding those that are not vertices yet. The name comes last: labels that were added stay
where there is none. -/
def addEdge (s : Store) (source destination name : Value) : Store × Except Failure Edge :=
  if source.equal destination then (s, .error (Failure.selfLoop source).written)
  else
    match s.get? (.label source), s.get? (.label destination) with
    | .error failure, _ => (s, .error failure)
    | _, .error failure => (s, .error failure)
    | .ok first, .ok second =>
      if s.areLinked first second then (s, .error (Failure.duplicateEdge source destination).written)
      else
        match s.ensure source first with
        | .error failure => (s, .error failure)
        | .ok (s, u) =>
          match s.ensure destination second with
          | .error failure => (s, .error failure)
          | .ok (s, v) => s.linkNamed (Graph.nameOf source destination name) u v

/-! ## Instances -/

/-- Adds the labels that are not vertices yet. -/
def addNodes (s : Store) : List Value → Except Failure Store
  | [] => return s
  | label :: rest => do
    if ← s.contains (.label label) then s.addNodes rest
    else
      let (s, _) ← s.addVertex label
      s.addNodes rest

/-- Adds the edges that a list of dictionaries describes. -/
def addEdges (s : Store) : List Value → Except Failure Store
  | [] => return s
  | entry :: rest => do
    let source ← entry.field "source"
    let target ← entry.field "target"
    let name ← entry.get "name" .null
    match s.addEdge source target name with
    | (s, .ok _) => s.addEdges rest
    | (_, .error failure) => throw failure

def ofInstance (problem : Value) : Except Failure Store := do
  let nodes ← (← problem.get "nodes" (.list [])).items
  let s ← empty.addNodes nodes
  let edges ← (← problem.get "edges" (.list [])).items
  s.addEdges edges

def toInstance (s : Store) (terminals : List Value) : Value :=
  .dict [("nodes", .list (s.vertices.toList.map (·.label))),
    ("edges", .list (s.links.toList.map fun link => Graph.edgeEntry (s.edge link))),
    ("terminals", .list terminals), ("metadata", Graph.customMetadata s.size)]

/-! ## Queries -/

/-- The hops from a vertex to each vertex; `none` where there is no way. -/
def distances (s : Store) (source : Ref) : Except Failure (List (Option Nat)) :=
  return s.graph.distances (← s.resolve source)

/-- A shortest path between two vertices. -/
def path (s : Store) (source target : Ref) : Except Failure (List Nat) := do
  let u ← s.resolve source
  let v ← s.resolve target
  s.graph.path u v

/-- A minimum Steiner tree of the vertices that are asked for. -/
def solve (s : Store) (settings : SolverSettings) (terminals : List Ref) : Except Failure Tree :=
  s.graph.solve settings (terminals.map Ref.named)

end Store

end SteinerTrees
