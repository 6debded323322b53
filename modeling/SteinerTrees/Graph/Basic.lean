import SteinerTrees.Value.Access

/-! # Graphs

An undirected graph keeps the labels of its vertices in the order in which they were added, and its links
in the order in which they were made. The position of a label is the index of its vertex. A link joins
two vertices by index and remembers which of them was named first; that order, and the name, matter for
display only. What is next to a vertex is read off the links, so the order of neighbours is the order of
links.

Adding returns the graph together with the outcome: a label that differs from itself can be refused
after its first occurrence has been added, and a name can fail after both labels have been. -/

namespace SteinerTrees

/-- A named connection between the vertices at two indices. -/
structure Link where
  name : Value
  source : Nat
  target : Nat
  deriving Repr

/-- The end of a link opposite to a vertex. -/
def Link.other? (link : Link) (v : Nat) : Option Nat :=
  if link.source = v then some link.target
  else if link.target = v then some link.source
  else none

/-- Whether a link joins two vertices, in either direction. -/
def Link.joins (link : Link) (u v : Nat) : Bool := link.other? u == some v

structure Graph where
  labels : Array Value := #[]
  links : Array Link := #[]
  deriving Repr

/-- A connection that is named by the labels of its ends. -/
structure Edge where
  name : Value
  source : Value
  destination : Value
  deriving Repr

namespace Edge

/-- An edge in a line of text. -/
def described (e : Edge) : String := s!"{e.name.display}: {e.source.display} - {e.destination.display}"

def render (e : Edge) : String := s!"Edge({e.described})"

/-- The distinct ends of an edge. -/
def endpoints (e : Edge) : List Value := Value.distinct [e.source, e.destination]

/-- Whether two edges have the same two ends, in either direction. -/
def sameEnds (a b : Edge) : Bool :=
  a.source.same b.source && a.destination.same b.destination ||
    a.source.same b.destination && a.destination.same b.source

/-- Edges are equal when their names and their unordered ends are. -/
def equal (a b : Edge) : Bool := a.name.equal b.name && a.sameEnds b

end Edge

namespace Graph

def empty : Graph := {}

def size (g : Graph) : Nat := g.labels.size

/-- The label at an index. -/
def label (g : Graph) (v : Nat) : Value := g.labels.getD v .null

def vertices (g : Graph) : List Nat := List.range g.size

/-- The index of a label. -/
def indexOf? (g : Graph) (label : Value) : Option Nat := g.labels.findIdx? (label.same ·)

/-- Whether a label is a vertex; a value that cannot be a label is refused. -/
def contains (g : Graph) (label : Value) : Except Failure Bool :=
  return (g.indexOf? (← label.asLabel)).isSome

/-- The index of the vertex with a label, if there is one. -/
def find? (g : Graph) (label : Value) : Except Failure (Option Nat) :=
  return g.indexOf? (← label.asLabel)

/-- The index of the vertex with a label. -/
def resolve (g : Graph) (label : Value) : Except Failure Nat := do
  match g.indexOf? (← label.asLabel) with
  | some v => return v
  | none => throw (Failure.vertexNotFound label).written

/-- The neighbours of a vertex, in the order of the links to them. -/
def neighbors (g : Graph) (v : Nat) : List Nat := g.links.toList.filterMap (·.other? v)

/-- The link between two vertices. -/
def linkBetween? (g : Graph) (u v : Nat) : Option Link := g.links.find? (·.joins u v)

/-- The neighbours of every vertex. -/
def adjacency (g : Graph) : Array (List Nat) := (g.vertices.map g.neighbors).toArray

/-- A link with the labels of its ends. -/
def edge (g : Graph) (link : Link) : Edge := ⟨link.name, g.label link.source, g.label link.target⟩

def edges (g : Graph) : List Edge := g.links.toList.map g.edge

def render (g : Graph) : String := s!"<Graph vertices={g.size} edges={g.links.size}>"

/-! ## Adding -/

/-- A graph with one more vertex. -/
def push (g : Graph) (label : Value) : Graph := { g with labels := g.labels.push label }

def addVertex (g : Graph) (label : Value) : Except Failure Graph := do
  if (g.indexOf? (← label.asLabel)).isSome then throw (Failure.duplicateVertex label).written
  else return g.push label

/-- The text that names a connection without a name of its own, if its ends can be written. -/
def defaultName (source destination : Value) : Except Failure Value :=
  if source.isWritable && destination.isWritable then .ok (.text s!"{source.display}-{destination.display}")
  else .error .unwritable

/-- The name of a connection; `null` is replaced by the default name. -/
def nameOf (source destination name : Value) : Except Failure Value :=
  match name with
  | .null => defaultName source destination
  | given => .ok given

/-- Whether two labels are vertices with a link between them. -/
def isLinked (g : Graph) (source destination : Value) : Bool :=
  match g.indexOf? source, g.indexOf? destination with
  | some u, some v => (g.linkBetween? u v).isSome
  | _, _ => false

/-- A graph with a label among its vertices, and the index of the label. -/
def ensure (g : Graph) (label : Value) : Graph × Nat :=
  match g.indexOf? label with
  | some v => (g, v)
  | none => (g.push label, g.size)

/-- A graph with one more link. -/
def link (g : Graph) (name : Value) (source target : Nat) : Graph :=
  { g with links := g.links.push ⟨name, source, target⟩ }

/-- Links two vertices, if there is a name for the link. -/
def linkNamed (g : Graph) (name : Except Failure Value) (source target : Nat) : Graph × Except Failure Edge :=
  match name with
  | .ok name => (g.link name source target, .ok ⟨name, g.label source, g.label target⟩)
  | .error failure => (g, .error failure)

/-- Connects two labels, adding those that are not vertices yet. The name comes last: labels that were added stay
where there is none. -/
def addEdge (g : Graph) (source destination name : Value) : Graph × Except Failure Edge :=
  if source.equal destination then (g, .error (Failure.selfLoop source).written)
  else
    match source.asLabel, destination.asLabel with
    | .error failure, _ => (g, .error failure)
    | _, .error failure => (g, .error failure)
    | .ok _, .ok _ =>
      if g.isLinked source destination then (g, .error (Failure.duplicateEdge source destination).written)
      else
        let absent := (g.indexOf? destination).isNone
        let (g, u) := g.ensure source
        if absent ∧ (g.indexOf? destination).isSome then (g, .error (Failure.duplicateVertex destination).written)
        else
          let (g, v) := g.ensure destination
          g.linkNamed (nameOf source destination name) u v

/-- The edges whose two ends are both among the given labels. -/
def inducedEdges (g : Graph) (labels : Value) : Except Failure (List Edge) := do
  let members ← labels.asSet
  return g.edges.filter fun e => e.source.isIn members && e.destination.isIn members

/-- The edge between two labels, if they are joined. -/
def edgeBetween (g : Graph) (a b : Value) : Except Failure (Option Edge) := do
  let u ← g.resolve a
  let v ← g.resolve b
  return (g.linkBetween? u v).map g.edge

end Graph

end SteinerTrees
