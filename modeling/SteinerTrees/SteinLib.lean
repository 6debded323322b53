import SteinerTrees.Decimal.Reading
import SteinerTrees.Files
import SteinerTrees.Log
import SteinerTrees.Text.Case
import SteinerTrees.Value.Access

/-! # SteinLib files

A SteinLib file opens with a magic word. Sections follow, of which the graph and its terminals are read:
a number of nodes, edges and arcs between nodes that are counted from one, and terminals. Weights and
the directions of arcs are dropped with a warning, loops and repeated pairs without one. Each line is read
to one statement in the section that it stands in; the first line that has none is reported by its
number. -/

namespace SteinerTrees

namespace SteinLib

/-- What a section holds. -/
inductive Part where
  | graph
  | terminals
  | other
  deriving DecidableEq, Repr

/-- The meaning of one line. Nodes are counted from zero. -/
inductive Statement where
  | nothing
  | enter (part : Part)
  | nodes (count : Int)
  | edge (source target : Int) (directed weighted : Bool)
  | terminal (node : Int)
  deriving DecidableEq, Repr

/-- The content of a file: its number of nodes, and edges and terminals counted from zero. -/
structure Contents where
  nodes : Int := 0
  edges : List (Int × Int) := []
  terminals : List Int := []
  weighted : Bool := false
  directed : Bool := false
  deriving DecidableEq, Repr

/-- The word that opens a file. -/
def magic : String := "33D32945"

def partOfName (name : String) : Part :=
  match Text.upper name with
  | "GRAPH" => .graph
  | "TERMINALS" => .terminals
  | _ => .other

/-- The node that a word names, counted from zero. -/
def node? (word : Option String) : Option Int := (word.bind Decimal.integer?).map (· - 1)

/-- Whether a word is a weight other than one; a word that is no number has no answer. -/
def isWeight? (word : Option String) : Option Bool :=
  match word with
  | none => some false
  | some text => (Decimal.readNumber text).map fun weight => weight != Binary64.ofInt 1

/-- The statement of the words of a line, unless the line is malformed. -/
def statement? (part : Part) (words : List String) : Option Statement :=
  match words with
  | [] => some .nothing
  | first :: rest =>
    let keyword := Text.upper first
    if keyword = "SECTION" then some (.enter ((rest.head?.map partOfName).getD .other))
    else if keyword = "END" ∨ keyword = "EOF" then some (.enter .other)
    else match part with
      | .graph =>
        if keyword = "NODES" then (rest.head?.bind Decimal.integer?).map .nodes
        else if keyword = "E" ∨ keyword = "A" then do
          let source ← node? rest[0]?
          let target ← node? rest[1]?
          let weighted ← isWeight? rest[2]?
          return .edge source target (keyword = "A") weighted
        else some .nothing
      | .terminals => if keyword = "T" then (node? rest.head?).map .terminal else some .nothing
      | .other => some .nothing

/-- Whether a pair of nodes stands in a list in either order. -/
def hasPair (edges : List (Int × Int)) (source target : Int) : Bool :=
  edges.any fun edge => edge = (source, target) ∨ edge = (target, source)

namespace Contents

/-- Takes in one statement. -/
def add (contents : Contents) : Statement → Contents
  | .nothing | .enter _ => contents
  | .nodes count => { contents with nodes := count }
  | .terminal node => { contents with terminals := contents.terminals ++ [node] }
  | .edge source target directed weighted =>
    { contents with
      edges :=
        if source = target ∨ hasPair contents.edges source target then contents.edges
        else contents.edges ++ [(source, target)]
      directed := contents.directed || directed
      weighted := contents.weighted || weighted }

end Contents

/-- The section after a statement. -/
def Part.after (part : Part) : Statement → Part
  | .enter next => next
  | _ => part

/-- The words of a line; blank lines and comments have none. -/
def wordsOf (line : String) : List String := if line.startsWith "#" then [] else Text.words line

/-- Reads trimmed lines, of which the first has the given number. -/
def readLines (contents : Contents) (part : Part) (number : Nat) : List String → Except Failure Contents
  | [] => .ok contents
  | line :: rest =>
    match statement? part (wordsOf line) with
    | some statement => readLines (contents.add statement) (part.after statement) (number + 1) rest
    | none => .error (.malformedLine number line)

def isHeader (line : String) : Bool := (Text.upper line).startsWith magic

/-- The content of a text. -/
def read (text : String) : Except Failure Contents :=
  match (Text.lines text).map Text.trim with
  | header :: rest => if isHeader header then readLines {} .other 2 rest else .error .notStp
  | [] => .error .notStp

namespace Contents

/-- One more than the largest node that an edge or a terminal names. -/
def extent (contents : Contents) : Int :=
  (contents.edges.flatMap (fun edge => [edge.1, edge.2]) ++ contents.terminals).foldl (fun m node => max m (node + 1)) 0

/-- The number of nodes: those announced, or as many as are named. -/
def size (contents : Contents) : Nat := (max contents.nodes contents.extent).toNat

/-- Edges with their names `e1`, `e2`, … from a number on. -/
def namedEdges (number : Nat) : List (Int × Int) → List Value
  | [] => []
  | (source, target) :: rest =>
    .dict [("source", .int source), ("target", .int target), ("name", .text s!"e{number}")] ::
      namedEdges (number + 1) rest

/-- The instance with given nodes. -/
def withNodes (contents : Contents) (name : Value) (nodes : List Value) : Value :=
  .dict [
    ("nodes", .list nodes),
    ("edges", .list (namedEdges 1 contents.edges)),
    ("terminals", .list (contents.terminals.map .int)),
    ("instance_name", name),
    ("metadata", .dict [
      ("generator", .text "steinlib"),
      ("size", .int contents.size),
      ("params", .dict [
        ("format", .text "stp"),
        ("weighted_source", .bool contents.weighted),
        ("directed_source", .bool contents.directed)])])]

def toInstance (contents : Contents) (name : Value) : Except Failure Value :=
  contents.withNodes name <$> Value.listNumbers contents.size

/-- The warnings about what was dropped. -/
def warnings (contents : Contents) (name : Value) : Log :=
  let warning (dropped solved : String) : LogEntry :=
    ⟨.warning, s!"{name.display}: {dropped} ignored, solving the {solved} instance"⟩
  (if contents.weighted then [warning "edge weights" "unit-weight"] else []) ++
    if contents.directed then [warning "arc directions" "undirected"] else []

end Contents

/-- The instance in a text, which gets a name, with the warnings about it. -/
def parse (text : String) (name : Value) : Except Failure (Value × Log) := do
  let contents ← read text
  return (← contents.toInstance name, contents.warnings name)

/-- The instance in a file, which takes its name from the file. -/
def load (files : Files) (path : String) : Except Failure (Value × Log) := do
  if files.exists? path then parse (← files.read path) (.text (Path.stem (Path.baseName path)))
  else throw (.stpFileMissing path)

end SteinLib

end SteinerTrees
