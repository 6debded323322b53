import SteinerTrees.Algorithm
import SteinerTrees.Approximation
import SteinerTrees.Benchmark.Instances
import SteinerTrees.Benchmark.Run
import SteinerTrees.Benchmark.Summary
import SteinerTrees.CommandLine.Arguments
import SteinerTrees.CommandLine.Commands
import SteinerTrees.CommandLine.Grammar
import SteinerTrees.CommandLine.Run
import SteinerTrees.CommandLine.Session
import SteinerTrees.Decimal.Binary64
import SteinerTrees.Decimal.Reading
import SteinerTrees.Decimal.Shortest
import SteinerTrees.Failure
import SteinerTrees.Failure.Description
import SteinerTrees.Files
import SteinerTrees.Generator.Basic
import SteinerTrees.Generator.Dice
import SteinerTrees.Generator.Lattice
import SteinerTrees.Generator.Layout
import SteinerTrees.Graph.Basic
import SteinerTrees.Graph.Hops
import SteinerTrees.Graph.Instance
import SteinerTrees.Graph.Skeleton
import SteinerTrees.InstanceFile
import SteinerTrees.Json.Printer
import SteinerTrees.Json.Reader
import SteinerTrees.Log
import SteinerTrees.Main
import SteinerTrees.ProblemClass
import SteinerTrees.Proofs.Benchmark.Generated
import SteinerTrees.Proofs.Benchmark.Names
import SteinerTrees.Proofs.Benchmark.Results
import SteinerTrees.Proofs.Benchmark.Rows
import SteinerTrees.Proofs.Benchmark.Runs
import SteinerTrees.Proofs.CommandLine.Benchmarks
import SteinerTrees.Proofs.CommandLine.Commands
import SteinerTrees.Proofs.CommandLine.Runs
import SteinerTrees.Proofs.CommandLine.Scripts
import SteinerTrees.Proofs.Decimal.Digits
import SteinerTrees.Proofs.Decimal.Rounding
import SteinerTrees.Proofs.Decimal.Shortest
import SteinerTrees.Proofs.Files.Failing
import SteinerTrees.Proofs.Files.Written
import SteinerTrees.Proofs.Generator.Components
import SteinerTrees.Proofs.Generator.Drawn
import SteinerTrees.Proofs.Generator.Grids
import SteinerTrees.Proofs.Generator.Instances
import SteinerTrees.Proofs.Generator.Lattice
import SteinerTrees.Proofs.Generator.Layouts
import SteinerTrees.Proofs.Generator.Refusals
import SteinerTrees.Proofs.Graph.Adding
import SteinerTrees.Proofs.Graph.Built
import SteinerTrees.Proofs.Graph.Distance
import SteinerTrees.Proofs.Graph.EarlySearch
import SteinerTrees.Proofs.Graph.FirstPaths
import SteinerTrees.Proofs.Graph.Hops
import SteinerTrees.Proofs.Graph.Joined
import SteinerTrees.Proofs.Graph.Keyed
import SteinerTrees.Proofs.Graph.Listing
import SteinerTrees.Proofs.Graph.Loaded
import SteinerTrees.Proofs.Graph.Mirror
import SteinerTrees.Proofs.Graph.Skeleton
import SteinerTrees.Proofs.Graph.Subgraph
import SteinerTrees.Proofs.Graph.WellFormed
import SteinerTrees.Proofs.InstanceFile.Builds
import SteinerTrees.Proofs.InstanceFile.Checked
import SteinerTrees.Proofs.InstanceFile.Failing
import SteinerTrees.Proofs.InstanceFile.Refusals
import SteinerTrees.Proofs.InstanceFile.RoundTrip
import SteinerTrees.Proofs.Json.Numbers
import SteinerTrees.Proofs.Json.RoundTrip
import SteinerTrees.Proofs.Json.Storable
import SteinerTrees.Proofs.Json.Texts
import SteinerTrees.Proofs.Json.Units
import SteinerTrees.Proofs.Lists
import SteinerTrees.Proofs.Settings.Checks
import SteinerTrees.Proofs.Settings.Sources
import SteinerTrees.Proofs.Solver.Certificate
import SteinerTrees.Proofs.Solver.Closure
import SteinerTrees.Proofs.Solver.Failures
import SteinerTrees.Proofs.Solver.Hubs
import SteinerTrees.Proofs.Solver.Marks
import SteinerTrees.Proofs.Solver.Merge
import SteinerTrees.Proofs.Solver.Names
import SteinerTrees.Proofs.Solver.Optimal
import SteinerTrees.Proofs.Solver.Outcome
import SteinerTrees.Proofs.Solver.Partitions
import SteinerTrees.Proofs.Solver.Query
import SteinerTrees.Proofs.Solver.Queue
import SteinerTrees.Proofs.Solver.Ratio
import SteinerTrees.Proofs.Solver.Relax
import SteinerTrees.Proofs.Solver.Rows
import SteinerTrees.Proofs.Solver.StarTrees
import SteinerTrees.Proofs.Solver.Stars
import SteinerTrees.Proofs.Solver.Submasks
import SteinerTrees.Proofs.Solver.Trail
import SteinerTrees.Proofs.Solver.Tree
import SteinerTrees.Proofs.SteinLib.Contents
import SteinerTrees.Proofs.SteinLib.Grammar
import SteinerTrees.Proofs.SteinLib.Instance
import SteinerTrees.Proofs.SteinLib.Parsing
import SteinerTrees.Proofs.Store.Consistent
import SteinerTrees.Proofs.Store.History
import SteinerTrees.Proofs.Store.Indexed
import SteinerTrees.Proofs.Store.Outcomes
import SteinerTrees.Proofs.Store.Paths
import SteinerTrees.Proofs.Store.RoundTrip
import SteinerTrees.Proofs.Store.Steps
import SteinerTrees.Proofs.Text.Points
import SteinerTrees.Proofs.Value.Distinct
import SteinerTrees.Proofs.Value.Failing
import SteinerTrees.Proofs.Value.Limits
import SteinerTrees.Proofs.Value.Reading
import SteinerTrees.Proofs.Verdict.Acceptance
import SteinerTrees.Proofs.Verdict.Agreement
import SteinerTrees.Proofs.Verdict.Answers
import SteinerTrees.Proofs.Verdict.Candidate
import SteinerTrees.Proofs.Verdict.Decision
import SteinerTrees.Proofs.Verdict.Objective
import SteinerTrees.Proofs.Verdict.Readable
import SteinerTrees.Proofs.Verdict.Stars
import SteinerTrees.Settings.Checked
import SteinerTrees.Settings.Environment
import SteinerTrees.Settings.Model
import SteinerTrees.Solver.Merge
import SteinerTrees.Solver.Relax
import SteinerTrees.Solver.Solve
import SteinerTrees.Solver.Table
import SteinerTrees.Solver.Tree
import SteinerTrees.SteinLib
import SteinerTrees.Store
import SteinerTrees.Text.Blank
import SteinerTrees.Text.Case
import SteinerTrees.Text.Digit
import SteinerTrees.Text.Printable
import SteinerTrees.Text.Quoted
import SteinerTrees.Text.Surrogate
import SteinerTrees.Text.Utf8
import SteinerTrees.Value.Access
import SteinerTrees.Value.Basic
import SteinerTrees.Value.Key
import SteinerTrees.Value.Number
import SteinerTrees.Verdict
