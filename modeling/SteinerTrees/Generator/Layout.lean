import SteinerTrees.Generator.Dice
import SteinerTrees.Graph.Hops

/-! # Layouts

A layout is a graph on the numbers below its size. A grid is as square as its size allows; here are its rows
and columns. Two kinds are drawn: a random graph in which each pair is joined with the same chance, and a graph
that grows by nodes which prefer neighbours with many links. Every edge names its lower end first. -/

namespace SteinerTrees

structure Layout where
  size : Nat
  edges : List (Nat × Nat)
  deriving DecidableEq, Repr

namespace Layout

/-- The other end of an edge. -/
def opposite? (v : Nat) (edge : Nat × Nat) : Option Nat :=
  if edge.1 = v then some edge.2 else if edge.2 = v then some edge.1 else none

def adjacency (layout : Layout) : Adjacency :=
  ((List.range layout.size).map fun v => layout.edges.filterMap (opposite? v)).toArray

/-- The connected components, in the order of their lowest nodes. -/
def components (layout : Layout) : List (List Nat) :=
  let adjacency := layout.adjacency
  (List.range layout.size).foldl (fun found v =>
    if found.any (v ∈ ·) then found else found ++ [Hops.reached adjacency v]) []

/-- The longer of two lists, of equal ones the first. -/
def longer (a b : List Nat) : List Nat := if a.length < b.length then b else a

/-- The first of the largest components. -/
def largestComponent (layout : Layout) : List Nat := layout.components.foldl longer []

/-! ## Grids -/

/-- The largest divisor up to a bound; one if the bound is zero. -/
def rowsUpTo (size : Nat) : Nat → Nat
  | 0 => 1
  | bound + 1 => if size % (bound + 1) = 0 then bound + 1 else rowsUpTo size bound

/-- The whole root of a number, found bit by bit: the bits below a position are still missing from `root`. -/
def rootFrom (n root : Nat) : Nat → Nat
  | 0 => root
  | bit + 1 =>
    let next := root + Nat.pow 2 bit
    rootFrom n (if next * next ≤ n then next else root) bit

/-- The largest number whose square is at most `n`. -/
def root (n : Nat) : Nat := rootFrom n 0 (Nat.log2 n / 2 + 1)

/-- The rows of the most square grid of a size. -/
def rows (size : Nat) : Nat := rowsUpTo size (root size)

def columns (size : Nat) : Nat := size / rows size

/-! ## Random graphs -/

/-- How likely a pair is joined. -/
inductive Chance where
  | never
  | always
  | ratio (num den : Nat)
  deriving DecidableEq, Repr

/-- Whether a throw falls below a chance. -/
def Chance.holds (chance : Chance) (throw : Nat) : Bool :=
  match chance with
  | never => false
  | always => true
  | ratio num den => throw * den < num * Dice.sides

/-- All pairs of distinct nodes, the lower one first, in lexicographic order. -/
def pairs (size : Nat) : List (Nat × Nat) :=
  (List.range size).flatMap fun u => (List.range' (u + 1) (size - u - 1)).map fun v => (u, v)

def random (dice : Dice) (chance : Chance) (size : Nat) : Layout :=
  ⟨size, ((pairs size).zipIdx.filter fun entry => chance.holds (dice entry.2)).map (·.1)⟩

/-! ## Growing graphs -/

/-- Draws `count` distinct members of a list; a member that occurs often is drawn more likely. -/
def drawDistinct (dice : Dice) : Nat → Nat → List Nat → List Nat
  | 0, _, _ => []
  | count + 1, throw, ends =>
    match ends[dice throw % ends.length]? with
    | some v => v :: drawDistinct dice count (throw + 1) (ends.filter (· ≠ v))
    | none => []

/-- Attaches the node `source` to `links` earlier nodes, with a chance in proportion to their links. -/
def attach (dice : Dice) (links : Nat) (edges : List (Nat × Nat)) (source : Nat) : List (Nat × Nat) :=
  let ends := edges.flatMap fun edge => [edge.1, edge.2]
  edges ++ (drawDistinct dice links (source * links) ends).map fun target => (target, source)

/-- A star of the first `links + 1` nodes to which the other nodes are attached in turn. -/
def preferential (dice : Dice) (links size : Nat) : Layout :=
  let star := (List.range' 1 links).map fun v => (0, v)
  let edges := (List.range' (links + 1) (size - links - 1)).foldl (attach dice links) star
  ⟨size, edges.mergeSort fun a b => a.1 < b.1 || (a.1 == b.1 && a.2 ≤ b.2)⟩

end Layout

/-! ## Sources -/

/-- Where the random part of an instance comes from: graphs of the two random kinds, and samples of a given
number of members. -/
structure Source where
  random : Layout.Chance → Nat → Layout
  preferential : Nat → Nat → Layout
  sample : Nat → List Nat → List Nat

/-- The source that throws dice. -/
def Source.ofDice (dice : Dice) : Source where
  random := Layout.random dice
  preferential := Layout.preferential dice
  sample count members := dice.sample count 0 members

end SteinerTrees
