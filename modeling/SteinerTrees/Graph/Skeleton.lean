import SteinerTrees.Graph.Hops

/-! # Plain graphs

A plain graph has nodes and unordered pairs of nodes, each once; a node may be paired with itself. It
forgets names and orientation, and is what solutions are checked on. Any label but `null` can be a node.
A node of an instance that is no label may still stand for one, if it is a pair of a label and the
entries that describe it. Labels that are the same value may look different, so a pair also keeps the labels
by which its nodes were joined. -/

namespace SteinerTrees

/-- Two nodes, and the labels by which they are joined. -/
structure Bond where
  ends : Nat × Nat
  labels : Value × Value
  deriving Repr

structure Skeleton where
  nodes : Array Value := #[]
  bonds : Array Bond := #[]
  deriving Repr

/-- The node to which a bond leads from `v`, with its label there. -/
def Bond.opposite? (v : Nat) (bond : Bond) : Option (Nat × Value) :=
  if bond.ends.1 = v then some (bond.ends.2, bond.labels.2)
  else if bond.ends.2 = v then some (bond.ends.1, bond.labels.1)
  else none

namespace Skeleton

def size (s : Skeleton) : Nat := s.nodes.size

def node (s : Skeleton) (v : Nat) : Value := s.nodes.getD v .null

def indexOf? (s : Skeleton) (label : Value) : Option Nat := s.nodes.findIdx? (label.same ·)

def contains (s : Skeleton) (label : Value) : Bool := (s.indexOf? label).isSome

/-- The pairs of nodes, in the order in which they were joined. -/
def pairs (s : Skeleton) : List (Nat × Nat) := s.bonds.toList.map (·.ends)

/-- Whether a pair joins two nodes, in either order. -/
def isPair (u v : Nat) (pair : Nat × Nat) : Bool := pair = (u, v) || pair = (v, u)

def hasPair (s : Skeleton) (u v : Nat) : Bool := s.bonds.any fun bond => isPair u v bond.ends

/-- The nodes joined to `v`, each with the label by which it was joined. -/
def neighbors (s : Skeleton) (v : Nat) : List (Nat × Value) := s.bonds.toList.filterMap (Bond.opposite? v)

def adjacency (s : Skeleton) : Adjacency :=
  ((List.range s.size).map fun v => (s.neighbors v).map (·.1)).toArray

/-- The bonds at labelled nodes, node by node: each at the first of its ends. -/
def bondsAt (s : Skeleton) (seen : List Nat) : List (Nat × Value) → List Bond
  | [] => []
  | (v, label) :: rest =>
    let ahead := (s.neighbors v).filter fun next => next.1 ∉ seen
    ahead.map (fun next => ⟨(v, next.1), (label, next.2)⟩) ++ s.bondsAt (v :: seen) rest

/-- Adds a label unless it is a node. -/
def addNode (s : Skeleton) (label : Value) : Except Failure Skeleton := do
  let label ← label.asLabel
  if s.contains label then return s
  else if label.same .null then throw .nullNode
  else return { s with nodes := s.nodes.push label }

/-- Whether a value can be read as the entries of a dictionary: one itself, or a list of pairs. -/
def checkEntries (position : Nat) : List Value → Except Failure Unit
  | [] => return ()
  | entry :: rest => do
    match entry.items with
    | .error _ => throw (.misuse (.notPair position))
    | .ok [name, _] =>
      let _ ← name.asLabel
      checkEntries (position + 1) rest
    | .ok other => throw (.entryLength position other.length)

/-- Adds a node of an instance: a label, or a label with entries. -/
def addDescribed (s : Skeleton) (value : Value) : Except Failure Skeleton :=
  if value.isHashable then s.addNode value
  else do
    let (label, described) ← value.asPair
    let label ← label.asLabel
    match described with
    | .dict _ => pure ()
    | other => checkEntries 0 (← other.items)
    s.addNode label

/-- Adds a bond unless its nodes are joined. -/
def join (s : Skeleton) (bond : Bond) : Skeleton :=
  if s.hasPair bond.ends.1 bond.ends.2 then s else { s with bonds := s.bonds.push bond }

/-- Joins two labels, adding those that are not nodes yet. -/
def addPair (s : Skeleton) (source target : Value) : Except Failure Skeleton := do
  let s ← s.addNode source
  let s ← s.addNode target
  match s.indexOf? source, s.indexOf? target with
  | some u, some v => return s.join ⟨(u, v), (source, target)⟩
  | _, _ => return s

/-- Joins the ends of an edge of an instance. -/
def addEdge (s : Skeleton) (entry : Value) : Except Failure Skeleton := do
  let source ← entry.field "source"
  s.addPair source (← entry.field "target")

/-- Whether two labels are joined; the second one matters only if the first is a node. -/
def hasEdge (s : Skeleton) (source target : Value) : Except Failure Bool := do
  match s.indexOf? (← source.asLabel) with
  | none => return false
  | some u =>
    match s.indexOf? (← target.asLabel) with
    | none => return false
    | some v => return s.hasPair u v

/-- The plain graph on some labels with the pairs of `s` inside them. -/
def induced (s : Skeleton) (labels : List Value) : Skeleton :=
  let kept := s.nodes.toList.filter (·.isIn labels)
  let inside : Skeleton := { nodes := kept.toArray }
  s.bonds.toList.foldl (fun inside bond =>
    match inside.indexOf? (s.node bond.ends.1), inside.indexOf? (s.node bond.ends.2) with
    | some u, some v => inside.join ⟨(u, v), bond.labels⟩
    | _, _ => inside) inside

def isConnected (s : Skeleton) : Bool := Hops.isConnected s.adjacency

/-- A plain graph is a tree if it is connected and has one pair less than it has nodes. -/
def isTree (s : Skeleton) : Bool := s.isConnected && s.bonds.size + 1 == s.size

end Skeleton

end SteinerTrees
