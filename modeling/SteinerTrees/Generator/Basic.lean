import SteinerTrees.Generator.Lattice
import SteinerTrees.Generator.Layout
import SteinerTrees.Value.Number

/-! # Generated instances

A generator lays out a graph of a given size and draws terminals from the first of its largest
components, so that every instance has a tree. The parameters are a dictionary in which the chance or the
number of links, the number of terminals and the seed can be given. Nodes are numbered; instead of a size a
random graph also takes labels, if it joins all pairs of them or none. -/

namespace SteinerTrees

inductive GeneratorKind where
  | barabasiAlbert
  | erdosRenyi
  | grid2d
  deriving DecidableEq, Repr

namespace GeneratorKind

def name : GeneratorKind → String
  | barabasiAlbert => "barabasi_albert"
  | erdosRenyi => "erdos_renyi"
  | grid2d => "grid_2d"

/-- All kinds, in the order of their names. -/
def all : List GeneratorKind := [barabasiAlbert, erdosRenyi, grid2d]

def ofName (name : Value) : Except Failure GeneratorKind := do
  let name ← name.asLabel
  match all.find? fun kind => name.same (.text kind.name) with
  | some kind => return kind
  | none => throw (Failure.unknownGenerator name).written

end GeneratorKind

/-- A generated instance: its nodes by their labels, its layout, its terminals, and what it was generated
from. -/
structure Generated where
  kind : GeneratorKind
  requested : Value
  labels : List Value
  layout : Layout
  terminals : List Nat
  params : List (String × Value)
  deriving Repr

namespace Generated

/-- The chance that a parameter stands for. -/
def chanceOf (value : Value) : Except Failure Layout.Chance := do
  let quantity ← value.quantity
  if (Quantity.ofInt 1).isAtMost quantity then return .always
  else if quantity.isAtMost (.ofInt 0) then return .never
  else match quantity with
    | .finite num den => return .ratio num.toNat den
    | _ => return .ratio 0 1

/-- How many terminals are drawn from a component: the number asked for, or all of fewer. -/
def sampleSize (wanted : Value) (available : Nat) : Except Failure Nat := do
  let quantity ← wanted.quantity
  if (Quantity.ofInt available).isBelow quantity then return available
  else if !(Quantity.ofInt 0).isAtMost quantity then throw .sampleTooLarge
  else return (← wanted.count).toNat

/-- A seed that terminals can be drawn with. -/
def checkSeed (seed : Value) : Except Failure Unit :=
  match seed with
  | .list _ | .dict _ | .tuple _ => throw (.misuse (.notNumber "a seed" seed))
  | _ => return ()

/-- A seed that a random graph can be drawn with. -/
def checkGraphSeed (seed : Value) : Except Failure Unit :=
  match seed with
  | .null | .int _ | .bool _ => return ()
  | other => throw (Failure.unusableSeed other).written

/-- Draws the terminals of a layout, in the ascending order of their labels; an empty layout has none. -/
def drawTerminals (source : Source) (labels : List Value) (layout : Layout) (wanted seed : Value) :
    Except Failure (List Nat) := do
  if layout.size = 0 then return []
  else
    let component := layout.largestComponent
    checkSeed seed
    let label (v : Nat) : Value := labels.getD v .null
    if !Value.areOrdered (component.map label) then throw (.misuse (.notNumber "an order" (.list labels)))
    let count ← sampleSize wanted component.length
    return (source.sample count component).mergeSort fun a b => (label a).precedes (label b)

/-- The number of links of a new node, less than the size. -/
def linksOf (wanted size : Value) : Except Failure Value := do
  let others ← size.plus (-1)
  let bound := if (Quantity.ofInt 1).isBelow (← others.quantity) then others else .int 1
  return if (← bound.quantity).isBelow (← wanted.quantity) then bound else wanted

/-- The plain graph on labels, all pairs of which are joined or none. -/
def onLabels (chance : Layout.Chance) (labels : List Value) : Except Failure Skeleton := do
  let s ← labels.foldlM Skeleton.addDescribed {}
  match chance with
  | .never => return s
  | .always => (Layout.pairs labels.length).foldlM (fun s (u, v) =>
      s.addPair (labels.getD u .null) (labels.getD v .null)) s
  | .ratio .. => throw (.misuse (.notNumber "an integer" (.list labels)))

/-- The layout of a plain graph. -/
def layoutOf (s : Skeleton) : Layout := ⟨s.size, s.listed.map (·.ends)⟩

/-- Whether the names of all edges of a plain graph, which are made of their ends, can be written. -/
def areNamed (s : Skeleton) : Bool :=
  s.listed.all fun bond => (s.node bond.ends.1).isWritable && (s.node bond.ends.2).isWritable

/-- The labels and the layout of a size, with the parameters that describe it. -/
def layOut (kind : GeneratorKind) (source : Source) (size : Value) (params : List (String × Value)) (seed : Value) :
    Except Failure (List Value × Layout × List (String × Value)) := do
  match kind with
  | .grid2d =>
    let n ← size.count
    if n < 0 then throw .negativeRoot
    let rows := Layout.rows n.toNat
    let columns := Layout.columns n.toNat
    let s ← Skeleton.lattice (← Value.listNumbers rows) (← Value.listNumbers columns)
    let s ← s.numbered
    return (s.nodes.toList, layoutOf s, [("rows", .int rows), ("cols", .int columns)])
  | .erdosRenyi =>
    let p := (Value.lookup? "p" params).getD (.float (.ofRatio false 3 10))
    checkGraphSeed seed
    let chance ← chanceOf p
    match size.count with
    | .ok n =>
      let nodes ← Value.listNumbers n.toNat
      if n < 0 then throw (Failure.negativeNodes n).written
      return (nodes, source.random chance n.toNat, [("p", p)])
    | .error _ =>
      let s ← onLabels chance (← size.items)
      if !areNamed s then throw .unwritable
      return (s.nodes.toList, layoutOf s, [("p", p)])
  | .barabasiAlbert =>
    let links ← linksOf ((Value.lookup? "m" params).getD (.int 2)) size
    checkGraphSeed seed
    let least ← links.quantity
    let extent ← size.quantity
    if least.isBelow (.ofInt 1) || extent.isAtMost least then throw (Failure.attachmentBounds links size).written
    let m := (← links.count).toNat
    let _ ← Value.listNumbers m
    let n := extent.ceiling?.getD (m + 1)
    return (Value.numbers n, source.preferential m n, [("m", links)])

/-- The names that are no parameters. -/
def reserved : List String := ["self", "size"]

/-- The number of terminals that is asked for. -/
def wantedOf (params : List (String × Value)) : Value := (Value.lookup? "num_terminals" params).getD (.int 4)

def seedOf (params : List (String × Value)) : Value := (Value.lookup? "seed" params).getD .null

/-- Generates an instance with what a source draws. A list of `2 ^ 60` nodes or more has no room in any memory. -/
def generateFrom (kind : GeneratorKind) (source : Source) (size : Value) (params : List (String × Value)) :
    Except Failure Generated := do
  if let some (name, _) := params.find? fun param => param.1 ∈ reserved then
    throw (.misuse (.extraArgument name))
  let wanted := wantedOf params
  let (labels, layout, described) ← layOut kind source size params (seedOf params)
  if Nat.pow 2 60 ≤ labels.length then throw .outOfMemory
  let terminals ← drawTerminals source labels layout wanted (seedOf params)
  let params := described ++ [("num_terminals", wanted)]
  return { kind, requested := size, labels, layout, terminals, params }

/-- Generates an instance with the throws of its seed; `entropy` takes the place of a seed that is
absent. -/
def generate (kind : GeneratorKind) (entropy : Nat) (size : Value) (params : List (String × Value)) :
    Except Failure Generated :=
  let seed := seedOf params
  generateFrom kind (.ofDice (.ofSeed (if seed.same .null then .int entropy else seed))) size params

def label (g : Generated) (v : Nat) : Value := g.labels.getD v .null

def edgeEntry (g : Generated) (edge : Nat × Nat) : Value :=
  let source := g.label edge.1
  let target := g.label edge.2
  .dict [("source", source), ("target", target), ("name", .text s!"{source.display}-{target.display}")]

def metadata (g : Generated) : Value :=
  .dict [("generator", .text g.kind.name), ("size", g.requested), ("params", .dict g.params)]

def entries (g : Generated) : List (String × Value) := [
  ("nodes", .list g.labels),
  ("edges", .list (g.layout.edges.map g.edgeEntry)),
  ("terminals", .list (g.terminals.map g.label)),
  ("metadata", g.metadata)]

def toInstance (g : Generated) : Value := .dict g.entries

end Generated

end SteinerTrees
