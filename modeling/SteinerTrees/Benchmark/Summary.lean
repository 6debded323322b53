import SteinerTrees.Files
import SteinerTrees.Settings.Model

/-! # Results of a benchmark

The rows of a run as a table, and what each algorithm achieved over its successful runs: the mean
objective of those that have one, the share that was feasible, and how many there were. -/

namespace SteinerTrees

/-- What one algorithm achieved. -/
structure Achievement where
  algorithm : String
  meanObjective : Option Binary64
  feasibleRate : Binary64
  runs : Nat
  deriving Repr

namespace Achievement

/-- The mean of whole numbers. -/
def mean (values : List Int) : Option Binary64 :=
  let total := values.foldl (· + ·) 0
  if values.isEmpty then none else some (.ofRatio (total < 0) total.natAbs values.length)

/-- What an algorithm achieved in some rows. -/
def ofRows (algorithm : String) (rows : List Measurement) : Achievement where
  algorithm
  meanObjective := mean (rows.filterMap fun row => row.objective.bind (·.toInt?))
  feasibleRate := .ofRatio false (rows.countP (·.feasible)) rows.length
  runs := rows.length

def dump (a : Achievement) : Value :=
  .dict [("mean_objective", (a.meanObjective.map .float).getD .null), ("feasible_rate", .float a.feasibleRate),
    ("runs", .int a.runs)]

end Achievement

/-- The distinct texts of a list, in order. -/
def sortedNames (names : List String) : List String := (names.mergeSort Text.precedes).eraseDups

/-- What each algorithm achieved, in the order of their names. A run without rows has no status to judge
by. -/
def summarize (rows : List Measurement) : Except Failure (List Achievement) :=
  if rows.isEmpty then .error (.missingKey (.text "status"))
  else
    let successful := rows.filter fun row => row.status = .success
    .ok ((sortedNames (successful.map (·.algorithm))).map fun name =>
      .ofRows name (successful.filter fun row => row.algorithm = name))

/-- The names of the columns of a table of rows; an empty table has none. -/
def columnsOf (rows : List Measurement) : List String :=
  match rows with
  | [] => []
  | row :: _ => row.entries.map (·.1)

/-- A value as a cell of a table: what is missing is empty. -/
def cellText : Value → String
  | .null => ""
  | other => other.display

/-- The rows of a run as a table. -/
def sheetOf (rows : List Measurement) : Sheet :=
  ⟨columnsOf rows, rows.map fun row => row.entries.map fun entry => cellText entry.2⟩

namespace Sheet

/-- Whether a cell has to be quoted. -/
def needsQuotes (cell : String) : Bool := cell.toList.any fun c => c = ',' || c = '"' || c = '\n' || c = '\r'

/-- A cell as it is written: quoted where needed, with the quotes inside doubled. -/
def quoteCell (cell : String) : String :=
  if needsQuotes cell then
    String.ofList ('"' :: cell.toList.flatMap (fun c => if c = '"' then ['"', '"'] else [c]) ++ ['"'])
  else cell

def renderRow (cells : List String) : String := ",".intercalate (cells.map quoteCell) ++ "\n"

/-- A table as text: one line for the columns and one for each row, with commas between the cells. -/
def render (sheet : Sheet) : String := String.join (renderRow sheet.columns :: sheet.rows.map renderRow)

end Sheet

end SteinerTrees
