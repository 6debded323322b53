import SteinerTrees.Files
import SteinerTrees.Log

/-! # Sessions

A session is what a command has done so far: the files it leaves, what it logged and what it printed. A
script is a command under way; when it fails, what it did before remains. -/

namespace SteinerTrees

namespace CommandLine

structure Session where
  files : Files := {}
  log : Log := []
  output : List String := []
  deriving Repr

abbrev Script := ExceptT Failure (StateM Session)

namespace Script

/-- Prints lines. -/
def print (lines : List String) : Script Unit :=
  modify fun session => { session with output := session.output ++ lines }

/-- The value of a computation, or its failure. -/
def ofExcept {α : Type} : Except Failure α → Script α
  | .ok value => pure value
  | .error failure => throw failure

/-- The outcome of a computation that keeps a log, also where it fails. -/
def logged {α : Type} (result : Log × Except Failure α) : Script α := do
  modify fun session => { session with log := session.log ++ result.1 }
  ofExcept result.2

/-- Changes the files. -/
def changeFiles (change : Files → Except Failure Files) : Script Unit := do
  let files ← ofExcept (change (← get).files)
  modify fun session => { session with files }

/-- Carries out a script: its outcome, and the session after it. -/
def perform {α : Type} (script : Script α) (session : Session) : Except Failure α × Session :=
  (ExceptT.run script).run session

end Script

end CommandLine

end SteinerTrees
