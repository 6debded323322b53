import SteinerTrees.Failure
import SteinerTrees.Value.Access

/-! # Descriptions of failures

The failures of this library can be made from values by name. A description holds the text of such a
failure, the values it keeps by name, and the families it belongs to. The four plain kinds keep nothing:
their text is that of their only argument, or of all of them as a tuple. -/

namespace SteinerTrees

/-- The families that are told apart. -/
inductive Family where
  | steiner
  | graph
  | value
  | lookup
  | key
  deriving DecidableEq, Repr

def Family.name : Family → String
  | steiner => "SteinerError"
  | graph => "GraphError"
  | value => "ValueError"
  | lookup => "LookupError"
  | key => "KeyError"

structure Description where
  text : String
  fields : List (String × Value) := []
  families : List Family
  deriving Repr

namespace Description

/-- The text of arguments that are kept as they are. -/
def plainText : List Value → String
  | [] => ""
  | [argument] => argument.display
  | arguments => (Value.tuple arguments).display

/-- A description whose text shows some values; there is none if one of them cannot be written. -/
def showing (shown : List Value) (description : Description) : Except Failure Description :=
  if shown.all (·.isWritable) then .ok description else .error .unwritable

/-- The description of a failure that keeps its arguments as they are. -/
def plain (arguments : List Value) (families : List Family) : Except Failure Description :=
  showing arguments { text := plainText arguments, families }

/-- The description of the failure of a kind with given arguments. -/
def make (kind : String) (arguments : List Value) : Except Failure Description :=
  match kind, arguments with
  | "SteinerError", _ => plain arguments [.steiner]
  | "GraphError", _ => plain arguments [.steiner, .graph]
  | "InvalidEdgeError", _ => plain arguments [.steiner, .graph, .value]
  | "DisconnectedTerminalsError", _ => plain arguments [.steiner, .value]
  | "DuplicateVertexError", [label] => showing arguments {
      text := (Failure.duplicateVertex label).message
      fields := [("label", label)]
      families := [.steiner, .graph, .value] }
  | "VertexNotFoundError", [label] => showing arguments {
      text := (Failure.vertexNotFound label).message
      fields := [("label", label)]
      families := [.steiner, .graph, .lookup, .key] }
  | "DuplicateEdgeError", [source, destination] => showing arguments {
      text := (Failure.duplicateEdge source destination).message
      fields := [("source", source), ("destination", destination)]
      families := [.steiner, .graph, .value] }
  | "UnreachableTargetError", [source, target] => showing arguments {
      text := (Failure.unreachable source target).message
      fields := [("source", source), ("target", target)]
      families := [.steiner, .value] }
  | "TerminalNotFoundError", [labels] => do
    let labels ← labels.items
    showing labels {
      text := (Failure.terminalsNotFound labels).message
      fields := [("labels", .list labels)]
      families := [.steiner, .lookup, .key] }
  | "TooManyTerminalsError", [count, limit] => showing arguments {
      text := Failure.limitText count.display limit.display
      fields := [("count", count), ("limit", limit)]
      families := [.steiner, .value] }
  | _, _ => .error (.misuse (.argumentCount kind arguments.length))

def toValue (description : Description) : Value :=
  .dict [("text", .text description.text), ("fields", .dict description.fields),
    ("is", .list (description.families.map fun family => .text family.name))]

end Description

end SteinerTrees
