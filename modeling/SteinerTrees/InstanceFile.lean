import SteinerTrees.Files
import SteinerTrees.Graph.Instance
import SteinerTrees.Json.Printer
import SteinerTrees.Json.Reader

/-! # Instance files

A file holds one instance or a list of them. Reading checks each in turn: it has nodes and edges, every
edge has two ends, and every terminal is a node or the end of an edge. Terminals, a description and a
name are filled in where they are missing. The first instance that fails decides the outcome. -/

namespace SteinerTrees

namespace InstanceFile

/-- Whether a value is a dictionary with both ends of an edge. -/
def hasEnds : Value → Bool
  | .dict entries => (Value.lookup? "source" entries).isSome && (Value.lookup? "target" entries).isSome
  | _ => false

/-- The labels at one end of every edge. -/
def ends (name : String) (edges : List Value) : Except Failure (List Value) :=
  edges.mapM fun edge => do (← edge.field name).asLabel

/-- The labels that terminals may have. -/
def knownLabels (nodes : Value) (edges : List Value) : Except Failure (List Value) := do
  let nodes ← nodes.asSet
  return nodes ++ (← ends "source" edges) ++ (← ends "target" edges)

/-- The entries of a checked instance, complete with terminals, a description and a name. -/
def complete (index : Nat) (entries : List (String × Value)) (nodes : Value) :
    Except Failure (List (String × Value)) := do
  let entries := Value.setDefault "terminals" (.list []) entries
  let entries ← match Value.lookup? "metadata" entries with
    | some _ => pure entries
    | none => (fun size => entries ++ [("metadata", Graph.customMetadata size)]) <$> nodes.length
  return Value.setDefault "instance_name" (.text s!"custom_{index}") entries

/-- The terminals of an instance that are not among the known labels. -/
def strayTerminals (known : List Value) (terminals : Value) : Except Failure (List Value) := do
  let terminals ← (← terminals.items).mapM Value.asLabel
  return terminals.filter fun terminal => !terminal.isIn known

/-- Checks the instance at an index and fills in what is missing. -/
def check (index : Nat) (data : Value) : Except Failure Value := do
  let .dict entries := data | throw (.instanceNotDict index data)
  let some nodes := Value.lookup? "nodes" entries | throw (.instanceLacks index "nodes")
  let some edges := Value.lookup? "edges" entries | throw (.instanceLacks index "edges")
  let edges ← edges.items
  if let some position := edges.findIdx? fun edge => !hasEnds edge then
    throw (.edgeIncomplete index position)
  let known ← knownLabels nodes edges
  match ← strayTerminals known ((Value.lookup? "terminals" entries).getD (.list [])) with
  | [] => .dict <$> complete index entries nodes
  | stray => throw (Failure.strayTerminals index stray).written

/-- Checks instances, the first of which has the given index. -/
def checkAll (index : Nat) : List Value → Except Failure (List Value)
  | [] => return []
  | data :: rest => do
    let first ← check index data
    return first :: (← checkAll (index + 1) rest)

/-- The instances in the value of a file. -/
def ofValue (data : Value) : Except Failure (List Value) :=
  match data with
  | .dict _ => checkAll 0 [data]
  | .list items => checkAll 0 items
  | other => .error (.notInstances other)

/-- The instances in the text of a file. -/
def ofText (text : String) : Except Failure (List Value) := do ofValue (← Json.read text)

def load (files : Files) (path : String) : Except Failure (List Value) := do
  if files.exists? path then ofText (← files.read path) else throw (.instanceFileMissing path)

/-- The text of a file that holds a value. -/
def render (data : Value) : String := Json.indented 0 data

/-- Writes a value to a file. A value that cannot be written is found out after the file was opened. -/
def save (files : Files) (path : String) (data : Value) : Except Failure Files := do
  let saved ← files.write path (.text (render data))
  if data.isWritable then return saved else throw .unwritable

end InstanceFile

end SteinerTrees
