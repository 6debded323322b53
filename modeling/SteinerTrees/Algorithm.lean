import SteinerTrees.Approximation
import SteinerTrees.Graph.Instance
import SteinerTrees.Solver.Solve

/-! # Algorithms

An algorithm has a name and answers an instance, with a log. Besides a solution it can return nothing or
fail; in a process of its own it can also end the process or never answer. -/

namespace SteinerTrees

/-- How an algorithm ended. -/
inductive Attempt where
  | returned (solution : Value)
  | nothing
  | failed (failure : Failure)
  | exited (code : Int)
  | silent
  deriving Repr

/-- `family` is the name by which the kind of algorithm is shown. -/
structure Algorithm where
  name : String
  family : String
  solve : Value → Log × Attempt

namespace Algorithm

def render (algorithm : Algorithm) : String := s!"<{algorithm.family} name={Text.quoted algorithm.name}>"

/-- A solution or a failure as an attempt. -/
def attempt : Except Failure Value → Attempt
  | .ok solution => .returned solution
  | .error failure => .failed failure

/-- The exact solution of an instance, with the log of the graph and of the query. -/
def solveExactly (settings : SolverSettings) (problem : Value) : Log × Attempt :=
  match Graph.ofInstance problem with
  | .error failure => ([], .failed failure)
  | .ok g =>
    let log := [g.loadedEntry]
    match (do (← problem.get "terminals" (.list [])).items) with
    | .error failure => (log, .failed failure)
    | .ok terminals =>
      let (entries, result) := g.solveLogged settings terminals
      (log ++ entries, attempt (result.map (·.toSolution g)))

/-- The exact solver; without relaxation it goes by another name. -/
def exact (settings : SolverSettings) : Algorithm where
  name := if settings.relaxation then "dreyfus_wagner" else "dreyfus_wagner_merge_only"
  family := "DreyfusWagnerAlgorithm"
  solve := solveExactly settings

/-- One of the approximations. -/
def approximate (method : Value) : Algorithm where
  name := "networkx_" ++ method.display
  family := "NetworkXApproximation"
  solve problem := ([], attempt (Approximation.solve method problem))

end Algorithm

end SteinerTrees
