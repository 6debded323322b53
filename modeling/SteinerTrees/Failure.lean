import SteinerTrees.Text.Utf8
import SteinerTrees.Value.Basic

/-! # Failures

Everything that can go wrong is a cause. `kind` names the family that a cause is reported under,
`message` is its text, and `isReported` says which causes the command line reports as a failed command;
all others end the program. -/

namespace SteinerTrees

/-- One fault found while settings are checked: the place, and the rule that is broken there. -/
structure Issue where
  path : List String
  rule : String
  deriving DecidableEq, Repr

/-- A use of a value that its type does not allow. -/
inductive Misuse where
  | notIterable (value : Value)
  | notMember (value : Value)
  | unhashable (value : Value)
  | noFields (value : Value)
  | noLength (value : Value)
  | notPair (position : Nat)
  | notNumber (expected : String) (value : Value)
  | extraArgument (name : String)
  | argumentCount (kind : String) (count : Nat)
  | notType (value : Value)
  deriving Repr

def Misuse.message : Misuse → String
  | notIterable value => s!"'{value.typeName}' object is not iterable"
  | notMember value => s!"argument of type '{value.typeName}' is not iterable"
  | unhashable value => s!"unhashable type: '{value.typeName}'"
  | noFields (.list _) => "list indices must be integers or slices, not str"
  | noFields (.tuple _) => "tuple indices must be integers or slices, not str"
  | noFields (.text _) => "string indices must be integers, not 'str'"
  | noFields value => s!"'{value.typeName}' object is not subscriptable"
  | noLength value => s!"object of type '{value.typeName}' has no len()"
  | notPair position => s!"cannot convert dictionary update sequence element #{position} to a sequence"
  | notNumber expected value => s!"expected {expected}, not '{value.typeName}'"
  | extraArgument name => s!"got multiple values for argument '{name}'"
  | notType value => s!"a value of another type is needed, not '{value.typeName}'"
  | argumentCount kind count => s!"{kind} does not take {count} arguments"

inductive Failure where
  -- graphs
  | duplicateVertex (label : Value)
  | duplicateEdge (source destination : Value)
  | selfLoop (label : Value)
  | vertexNotFound (label : Value)
  | unreachable (source target : Value)
  -- the exact solver
  | terminalsNotFound (labels : List Value)
  | tooManyTerminals (count : Nat) (limit : Int)
  | disconnected (terminals : List Value)
  | noRecordedState (mask : Nat) (label : Value)
  | missingStep
  | noSuchIndex (index : Nat)
  | endlessTrail
  -- use of values
  | misuse (fault : Misuse)
  | lacksMethod (value : Value) (method : String)
  | missingKey (key : Value)
  | tooManyItems
  | tooFewItems (count : Nat)
  | entryLength (position length : Nat)
  -- numbers in text
  | malformedInteger (text : String)
  | integerTooLong (digits : Nat)
  | numberTooLarge
  /-- A whole number of too many digits stands where a text is made. -/
  | unwritable
  | countTooLarge
  | outOfMemory
  -- instance files
  | jsonSyntax
  | instanceFileMissing (path : String)
  | notInstances (data : Value)
  | instanceNotDict (index : Nat) (data : Value)
  | instanceLacks (index : Nat) (key : String)
  | edgeIncomplete (index edge : Nat)
  | strayTerminals (index : Nat) (labels : List Value)
  | noInstances (path : String)
  | stpFileMissing (path : String)
  | notStp
  | malformedLine (number : Nat) (line : String)
  -- the file system
  | noSuchFile (path : String)
  | isDirectory (path : String)
  | notDirectory (path : String)
  | fileInTheWay (path : String)
  | nameTooLong (path : String)
  | unencodable (code first last : Nat)
  | undecodable (fault : Text.Utf8.Fault)
  | nullInPath
  | accessDenied (path : String)
  -- plain graphs
  | nullNode
  | notConnected
  | nodeNotFound (label : Value)
  | unknownMethod (method : Value)
  -- generators
  | unknownGenerator (name : Value)
  | negativeNodes (size : Int)
  | attachmentBounds (links size : Value)
  | negativeRoot
  | sampleTooLarge
  | unusableSeed (seed : Value)
  -- benchmarks
  | unknownProblemClass (name : Value)
  | noAlgorithms
  /-- The program waits for an algorithm that never answers. -/
  | hanging
  | waitTooLong
  -- settings and the command line
  | invalid (model : String) (issues : List Issue)
  | unknownSetting (model field : String)
  | fixedAttribute (model name : String)
  | unknownLevel (name : String)
  | exit (code : Int)
  /-- A failure of an algorithm that was registered from outside. -/
  | raised (kind text : String)
  deriving Repr

namespace Failure

def kind : Failure → String
  | duplicateVertex _ => "DuplicateVertexError"
  | duplicateEdge .. => "DuplicateEdgeError"
  | selfLoop _ => "InvalidEdgeError"
  | vertexNotFound _ => "VertexNotFoundError"
  | unreachable .. => "UnreachableTargetError"
  | terminalsNotFound _ => "TerminalNotFoundError"
  | tooManyTerminals .. => "TooManyTerminalsError"
  | disconnected _ => "DisconnectedTerminalsError"
  | noRecordedState .. | endlessTrail | noAlgorithms => "RuntimeError"
  | missingStep | lacksMethod .. | fixedAttribute .. => "AttributeError"
  | misuse _ => "TypeError"
  | missingKey _ => "KeyError"
  | noSuchIndex _ => "IndexError"
  | jsonSyntax => "JSONDecodeError"
  | instanceFileMissing _ | stpFileMissing _ | noSuchFile _ => "FileNotFoundError"
  | isDirectory _ => "IsADirectoryError"
  | notDirectory _ => "NotADirectoryError"
  | fileInTheWay _ => "FileExistsError"
  | nameTooLong _ => "OSError"
  | unencodable .. => "UnicodeEncodeError"
  | undecodable _ => "UnicodeDecodeError"
  | accessDenied _ => "PermissionError"
  | notConnected | negativeNodes _ | attachmentBounds .. => "NetworkXError"
  | nodeNotFound _ => "NodeNotFound"
  | numberTooLarge | countTooLarge | waitTooLong => "OverflowError"
  | outOfMemory => "MemoryError"
  | hanging => "Hanging"
  | invalid .. => "ValidationError"
  | exit _ => "SystemExit"
  | raised kind _ => kind
  | tooManyItems | tooFewItems _ | entryLength .. | malformedInteger _ | integerTooLong _ | unwritable
  | notInstances _ | instanceNotDict .. | instanceLacks .. | edgeIncomplete .. | strayTerminals .. | noInstances _
  | notStp | malformedLine .. | nullInPath | nullNode | unknownMethod _ | unknownGenerator _ | negativeRoot
  | sampleTooLarge | unusableSeed _ | unknownProblemClass _ | unknownSetting .. | unknownLevel _ => "ValueError"

/-- The text of a count that exceeds the limit on terminals. -/
def limitText (count limit : String) : String :=
  s!"{count} terminals requested but the solver is limited to {limit}; the DP is exponential in the terminal count"

/-- The text of labels that are no vertices. -/
def missingTerminalsText (labels : List Value) : String :=
  "Terminal(s) not found in graph: " ++ ", ".intercalate (labels.map (·.shown))

/-- The digits of a number in base two. -/
def binary (n : Nat) : String := String.ofList (Nat.toDigits 2 n)

/-- The files of a failed access, as the system describes them. -/
def systemText (code : Nat) (cause path : String) : String := s!"[Errno {code}] {cause}: {Text.quoted path}"

def message : Failure → String
  | duplicateVertex label => s!"Vertex with label '{label.display}' already exists"
  | duplicateEdge source destination =>
    s!"An edge between '{source.display}' and '{destination.display}' already exists"
  | selfLoop label => s!"Self-loop on '{label.display}' is not allowed"
  | vertexNotFound label => s!"Vertex '{label.display}' not found"
  | unreachable source target => s!"'{target.display}' is not reachable from '{source.display}'"
  | terminalsNotFound labels => missingTerminalsText labels
  | tooManyTerminals count limit => limitText (toString count) (toString limit)
  | disconnected terminals =>
    "Terminals span more than one connected component: " ++ ", ".intercalate (terminals.map (·.shown))
  | noRecordedState mask label => s!"No DP state recorded for mask {binary mask} at Vertex({label.shown})"
  | endlessTrail => "The recorded states lead in a circle"
  | missingStep => "'NoneType' object has no attribute 'name'"
  | noSuchIndex index => s!"index {index} out of range"
  | misuse fault => fault.message
  | lacksMethod value method => s!"'{value.typeName}' object has no attribute '{method}'"
  | missingKey key => key.shown
  | tooManyItems => "too many values to unpack (expected 2)"
  | tooFewItems count => s!"not enough values to unpack (expected 2, got {count})"
  | entryLength position length =>
    s!"dictionary update sequence element #{position} has length {length}; 2 is required"
  | malformedInteger text =>
    "invalid literal for int() with base 10: " ++ String.ofList ((Text.quoted text).toList.take 200)
  | integerTooLong digits =>
    s!"Exceeds the limit (4300 digits) for integer string conversion: value has {digits} digits; " ++
      "use sys.set_int_max_str_digits() to increase the limit"
  | numberTooLarge => "int too large to convert to float"
  | unwritable =>
    "Exceeds the limit (4300 digits) for integer string conversion; " ++
      "use sys.set_int_max_str_digits() to increase the limit"
  | countTooLarge => "int too large to convert to C ssize_t"
  | outOfMemory => ""
  | jsonSyntax => "malformed JSON"
  | instanceFileMissing path => s!"Instance file not found: {path}"
  | notInstances data => s!"Expected a JSON object or array, got {data.typeName}"
  | instanceNotDict index data => s!"Instance {index} is not a dict: {data.typeName}"
  | instanceLacks index key =>
    s!"Instance {index} missing required '{key}' key. " ++
      "Expected format: \x7b\"nodes\": [...], \"edges\": [...], \"terminals\": [...]\x7d"
  | edgeIncomplete index edge => s!"Instance {index} edge {edge} needs 'source' and 'target'"
  | strayTerminals index labels =>
    s!"Instance {index} has terminals that are not nodes: " ++ (Value.list labels).shown
  | noInstances path => s!"No instances in {path}"
  | stpFileMissing path => s!"STP file not found: {path}"
  | notStp => "Not a SteinLib file: missing '33D32945 STP File' header"
  | malformedLine number line => s!"Malformed line {number}: " ++ Text.quoted line
  | noSuchFile path => systemText 2 "No such file or directory" path
  | isDirectory path => systemText 21 "Is a directory" path
  | notDirectory path => systemText 20 "Not a directory" path
  | fileInTheWay path => systemText 17 "File exists" path
  | nameTooLong path => systemText 36 "File name too long" path
  | unencodable code first last =>
    "'utf-8' codec can't encode " ++
      (if first = last then s!"character {Text.quoted (Text.ofPoints [code])} in position {first}"
        else s!"characters in position {first}-{last}") ++ ": surrogates not allowed"
  | undecodable fault => fault.message
  | nullInPath => "embedded null byte"
  | accessDenied path => systemText 13 "Permission denied" path
  | nullNode => "None cannot be a node"
  | notConnected => "G is not a connected graph."
  | nodeNotFound label => s!"Node {label.display} not found in graph"
  | unknownMethod method => s!"{method.display} is not a valid choice for an algorithm."
  | unknownGenerator name =>
    s!"Unknown generator '{name.display}'. Available: barabasi_albert, erdos_renyi, grid_2d"
  | negativeNodes size => s!"Negative number of nodes not valid: {size}"
  | attachmentBounds links size =>
    s!"Barabási–Albert network must have m >= 1 and m < n, m = {links.display}, n = {size.display}"
  | negativeRoot => "isqrt() argument must be nonnegative"
  | sampleTooLarge => "Sample larger than population or is negative"
  | unusableSeed seed => s!"{seed.display} cannot be used to generate a random.Random instance"
  | unknownProblemClass name => s!"Unknown problem class '{name.display}'. Available: steiner_tree"
  | noAlgorithms => "No algorithms registered. Call register_algorithm() first."
  | hanging => "the algorithm does not answer"
  | waitTooLong => "timeout is too large"
  | invalid model issues =>
    s!"{issues.length} validation error" ++ (if issues.length = 1 then "" else "s") ++ s!" for {model}"
  | unknownSetting model field => s!"\"{model}\" object has no field \"{field}\""
  | fixedAttribute model name => s!"property '{name}' of '{model}' object has no setter"
  | unknownLevel name => s!"Unknown level: " ++ Text.quoted name
  | exit code => toString code
  | raised _ text => text

/-- The failures that the command line reports: those of this library, missing files and wrong values. -/
def isReported (failure : Failure) : Bool :=
  failure.kind ∈ ["DuplicateVertexError", "DuplicateEdgeError", "InvalidEdgeError", "VertexNotFoundError",
    "UnreachableTargetError", "TerminalNotFoundError", "TooManyTerminalsError", "DisconnectedTerminalsError",
    "FileNotFoundError", "JSONDecodeError", "UnicodeEncodeError", "UnicodeDecodeError", "ValidationError", "ValueError"]

/-- The values that the message of a failure shows. -/
def shownValues : Failure → List Value
  | duplicateVertex label | selfLoop label | vertexNotFound label | noRecordedState _ label => [label]
  | duplicateEdge source destination => [source, destination]
  | unreachable source target => [source, target]
  | terminalsNotFound labels | disconnected labels | strayTerminals _ labels => labels
  | tooManyTerminals _ limit => [.int limit]
  | missingKey key | nodeNotFound key => [key]
  | unknownMethod name | unknownGenerator name | unknownProblemClass name => [name]
  | negativeNodes size => [.int size]
  | attachmentBounds links size => [links, size]
  | unusableSeed seed => [seed]
  | _ => []

/-- Whether the message of a failure can be written. -/
def isWritable (failure : Failure) : Bool := failure.shownValues.all (·.isWritable)

/-- What a cause is thrown as: making its message fails if a value in it cannot be written. -/
def written (failure : Failure) : Failure := if failure.isWritable then failure else unwritable

end Failure

end SteinerTrees
