import SteinerTrees.Failure
import SteinerTrees.Value.Access

/-! # Problem classes

The classes of problems that benchmarks can be run on. There is one: minimum Steiner trees. -/

namespace SteinerTrees

/-- The version of this library. -/
def version : String := "0.1.0"

structure ProblemClass where
  name : String
  objective : String
  description : String
  keywords : List String
  generators : List String
  deriving DecidableEq, Repr

namespace ProblemClass

def steinerTree : ProblemClass where
  name := "steiner_tree"
  objective := "minimize"
  description := "Find the fewest edges of an undirected graph that connect every terminal"
  keywords := ["steiner tree", "terminal connection", "network design", "join path", "net routing",
    "connect required nodes"]
  generators := ["erdos_renyi", "barabasi_albert", "grid_2d"]

def all : List ProblemClass := [steinerTree]

def ofName (name : Value) : Except Failure ProblemClass := do
  let name ← name.asLabel
  match all.find? fun problem => name.same (.text problem.name) with
  | some problem => return problem
  | none => throw (Failure.unknownProblemClass name).written

def dump (problem : ProblemClass) : Value :=
  .dict [("name", .text problem.name), ("objective", .text problem.objective),
    ("description", .text problem.description), ("keywords", .list (problem.keywords.map .text)),
    ("generators", .list (problem.generators.map .text))]

end ProblemClass

end SteinerTrees
