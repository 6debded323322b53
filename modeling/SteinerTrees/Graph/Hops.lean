import SteinerTrees.Graph.Basic

/-! # Hops

Breadth-first search from one vertex. A vertex is visited once, from the neighbour that came first out
of the queue, and its visit keeps the number of hops and that neighbour. Following the neighbours back
from a vertex gives a shortest path to it. The search runs on lists of neighbours, so it serves every
kind of graph. -/

namespace SteinerTrees

/-- The neighbours of each vertex. -/
abbrev Adjacency := Array (List Nat)

namespace Hops

/-- How a vertex was reached: the hops from the source, and the vertex before it. -/
structure Visit where
  hops : Nat
  parent : Nat
  deriving DecidableEq, Repr

/-- The visits so far, and the visited vertices whose neighbours are still to be looked at. -/
structure Search where
  visits : Array (Option Visit)
  queue : List Nat

def visit? (visits : Array (Option Visit)) (v : Nat) : Option Visit := visits.getD v none

/-- Visits `v` from `u` unless it has been visited. -/
def discover (u hops : Nat) (s : Search) (v : Nat) : Search :=
  if v < s.visits.size ∧ visit? s.visits v = none then
    ⟨s.visits.set! v (some ⟨hops + 1, u⟩), s.queue ++ [v]⟩
  else s

/-- Looks at the neighbours of the first vertex of the queue. -/
def step (adjacency : Adjacency) (s : Search) : Search :=
  match s.queue with
  | [] => s
  | u :: queue =>
    let hops := ((visit? s.visits u).map (·.hops)).getD 0
    (adjacency.getD u []).foldl (discover u hops) ⟨s.visits, queue⟩

/-- Every vertex enters the queue at most once, so as many steps as there are vertices are enough. -/
def run (adjacency : Adjacency) : Nat → Search → Search
  | 0, s => s
  | fuel + 1, s => run adjacency fuel (step adjacency s)

def start (size source : Nat) : Search :=
  ⟨(Array.replicate size none).set! source (some ⟨0, source⟩), [source]⟩

/-- The visits of the whole search from a source. -/
def explore (adjacency : Adjacency) (source : Nat) : Array (Option Visit) :=
  (run adjacency adjacency.size (start adjacency.size source)).visits

/-- The last `hops + 1` vertices of the way to `v`, in order. -/
def trace (visits : Array (Option Visit)) : Nat → Nat → List Nat
  | 0, v => [v]
  | hops + 1, v =>
    match visit? visits v with
    | some visit => trace visits hops visit.parent ++ [v]
    | none => [v]

/-- The way to a vertex, both ends included. -/
def path? (visits : Array (Option Visit)) (target : Nat) : Option (List Nat) :=
  (visit? visits target).map fun visit => trace visits visit.hops target

/-- The vertices visited from a source, in ascending order. -/
def reached (adjacency : Adjacency) (source : Nat) : List Nat :=
  let visits := explore adjacency source
  (List.range adjacency.size).filter fun v => (visit? visits v).isSome

/-- Whether all vertices are visited from the first. -/
def isConnected (adjacency : Adjacency) : Bool := (reached adjacency 0).length == adjacency.size

end Hops

namespace Graph

/-- The hops from a vertex to each vertex; `none` where there is no way. -/
def distances (g : Graph) (source : Nat) : List (Option Nat) :=
  let visits := Hops.explore g.adjacency source
  g.vertices.map fun v => (Hops.visit? visits v).map (·.hops)

/-- A shortest path between two vertices. -/
def path (g : Graph) (source target : Nat) : Except Failure (List Nat) :=
  match Hops.path? (Hops.explore g.adjacency source) target with
  | some path => .ok path
  | none => .error (Failure.unreachable (g.label source) (g.label target)).written

end Graph

end SteinerTrees
