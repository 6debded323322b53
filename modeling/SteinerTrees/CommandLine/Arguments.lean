import SteinerTrees.CommandLine.Grammar
import SteinerTrees.Decimal.Reading
import SteinerTrees.Files
import SteinerTrees.Generator.Basic

/-! # Arguments of the command line

General options come first, then a command with options of its own. A call for help ends the reading at
once; every fault is a usage error, whichever it is. Options are read in order, and of a repeated one the
last counts. Arguments that belong to nothing are refused last, after a call for help behind them. -/

namespace SteinerTrees

namespace CommandLine

/-- Where the instance to solve is read from. -/
inductive Source where
  | instances (path : String)
  | stp (path : String)
  deriving Repr

/-- Terminals that are not given are those of the instance. -/
structure SolveOptions where
  terminals : Option (List String) := none
  json : Bool := false
  deriving Repr

structure GenerateOptions where
  generator : GeneratorKind := .erdosRenyi
  numTerminals : Int := 4
  seed : Option Int := none
  deriving Repr

structure BenchOptions where
  generator : GeneratorKind := .erdosRenyi
  sizes : List Int := [20, 40]
  numTerminals : Int := 4
  count : Int := 3
  runs : Int := 1
  timeout : Binary64 := .ofInt 60
  parallel : Bool := false
  output : Option String := none
  deriving Repr

inductive Command where
  | demo
  | solve (source : Source) (options : SolveOptions)
  | generate (size : Int) (output : String) (options : GenerateOptions)
  | bench (options : BenchOptions)
  deriving Repr

namespace Command

/-- The file that a command reads. -/
def input? : Command → Option String
  | .solve (.instances path) _ | .solve (.stp path) _ => some path
  | _ => none

/-- The file that a command writes. -/
def output? : Command → Option String
  | .generate _ output _ => some output
  | .bench options => options.output
  | _ => none

end Command

structure GeneralOptions where
  verbose : Bool := false
  maxTerminals : Option Int := none
  mergeOnly : Bool := false
  deriving Repr

structure Arguments extends GeneralOptions where
  command : Command
  deriving Repr

/-! ## Reading items -/

def usage : Failure := .exit 2

def help : Failure := .exit 0

/-- Takes an item into account: what has been read, and whether no argument was stray so far. -/
def Item.apply {σ : Type} (set : σ → String → List String → Option σ) (state : σ × Bool) :
    Item → Except Failure (σ × Bool)
  | .option "help" _ => throw help
  | .option name words =>
    match set state.1 name words with
    | some next => return (next, state.2)
    | none => throw usage
  | .stray => return (state.1, false)
  | .malformed => throw usage

/-- Takes items into account in order. -/
def applyAll {σ : Type} (set : σ → String → List String → Option σ) (start : σ) (items : List Item) :
    Except Failure (σ × Bool) :=
  items.foldlM (Item.apply set) (start, true)

def generator? (word : String) : Option GeneratorKind := GeneratorKind.all.find? (·.name == word)

/-- Reads the arguments of a command that has no further commands. -/
def readAll {σ : Type} (grammar : Grammar) (set : σ → String → List String → Option σ) (start : σ)
    (words : List String) : Except Failure σ := do
  let some tokens := grammar.tokens? words | throw usage
  let (state, tidy) ← applyAll set start (grammar.scan tokens).1
  if tidy then return state else throw usage

/-- The options of a command, with the call for help. -/
def commandGrammar (options : List (String × Arity)) : Grammar where
  options := ("help", .flag) :: options
  letters := [('h', "help")]

/-! ## The commands -/

namespace SolveOptions

/-- Options under way, before the source is known. -/
structure Draft extends SolveOptions where
  source : Option Source := none

def grammar : Grammar :=
  commandGrammar [("instance", .single), ("stp", .single), ("terminals", .several), ("json", .flag)]

/-- The two kinds of sources exclude each other. -/
def set (draft : Draft) : String → List String → Option Draft
  | "instance", [path] =>
    match draft.source with
    | some (.stp _) => none
    | _ => some { draft with source := some (.instances (Path.normalize path)) }
  | "stp", [path] =>
    match draft.source with
    | some (.instances _) => none
    | _ => some { draft with source := some (.stp (Path.normalize path)) }
  | "terminals", words => some { draft with terminals := some words }
  | "json", _ => some { draft with json := true }
  | _, _ => none

def read (words : List String) : Except Failure Command := do
  let draft ← readAll grammar set {} words
  let some source := draft.source | throw usage
  return .solve source draft.toSolveOptions

end SolveOptions

namespace GenerateOptions

/-- Options under way, before the size and the output are known. -/
structure Draft extends GenerateOptions where
  size : Option Int := none
  output : Option String := none

def grammar : Grammar :=
  commandGrammar [("generator", .single), ("size", .single), ("num-terminals", .single), ("seed", .single),
    ("output", .single)]

def set (draft : Draft) : String → List String → Option Draft
  | "generator", [word] => (generator? word).map fun generator => { draft with generator }
  | "size", [word] => (Decimal.integer? word).map fun size => { draft with size := some size }
  | "num-terminals", [word] => (Decimal.integer? word).map fun numTerminals => { draft with numTerminals }
  | "seed", [word] => (Decimal.integer? word).map fun seed => { draft with seed := some seed }
  | "output", [path] => some { draft with output := some (Path.normalize path) }
  | _, _ => none

def read (words : List String) : Except Failure Command := do
  let draft ← readAll grammar set {} words
  match draft.size, draft.output with
  | some size, some output => return .generate size output draft.toGenerateOptions
  | _, _ => throw usage

end GenerateOptions

namespace BenchOptions

def grammar : Grammar :=
  commandGrammar [("generator", .single), ("sizes", .several), ("num-terminals", .single), ("count", .single),
    ("runs", .single), ("timeout", .single), ("parallel", .flag), ("output", .single)]

def set (options : BenchOptions) : String → List String → Option BenchOptions
  | "generator", [word] => (generator? word).map fun generator => { options with generator }
  | "sizes", words => (words.mapM Decimal.integer?).map fun sizes => { options with sizes }
  | "num-terminals", [word] => (Decimal.integer? word).map fun numTerminals => { options with numTerminals }
  | "count", [word] => (Decimal.integer? word).map fun count => { options with count }
  | "runs", [word] => (Decimal.integer? word).map fun runs => { options with runs }
  | "timeout", [word] => (Decimal.readNumber word).map fun timeout => { options with timeout }
  | "parallel", _ => some { options with parallel := true }
  | "output", [path] => some { options with output := some (Path.normalize path) }
  | _, _ => none

def read (words : List String) : Except Failure Command := .bench <$> readAll grammar set {} words

end BenchOptions

/-- Reads a command with its arguments. -/
def Command.read : List String → Except Failure Command
  | "demo" :: words => readAll (commandGrammar []) (fun _ _ _ => none) .demo words
  | "solve" :: words => SolveOptions.read words
  | "generate" :: words => GenerateOptions.read words
  | "bench" :: words => BenchOptions.read words
  | _ => throw usage

/-! ## The whole line -/

namespace GeneralOptions

def grammar : Grammar where
  options := [("help", .flag), ("verbose", .flag), ("max-terminals", .single), ("merge-only", .flag)]
  letters := [('h', "help"), ('v', "verbose")]
  precedesCommand := true

def set (options : GeneralOptions) : String → List String → Option GeneralOptions
  | "verbose", _ => some { options with verbose := true }
  | "max-terminals", [word] => (Decimal.integer? word).map fun limit => { options with maxTerminals := some limit }
  | "merge-only", _ => some { options with mergeOnly := true }
  | _, _ => none

end GeneralOptions

namespace Arguments

/-- Reads an argument line. Every argument has to have a single reading among the general options, also
behind the command. -/
def read (line : List String) : Except Failure Arguments := do
  let some tokens := GeneralOptions.grammar.tokens? line | throw usage
  let (items, behind) := GeneralOptions.grammar.scan tokens
  let (options, tidy) ← applyAll GeneralOptions.set {} items
  let command ← Command.read (line.drop (line.length - behind.length))
  if tidy then return { options with command } else throw usage

/-- How an argument line is written. -/
def synopsis : List String := [
  "usage: steinertrees [-h] [--verbose] [--max-terminals N] [--merge-only] COMMAND ...",
  "  demo",
  "  solve (--instance FILE | --stp FILE) [--terminals LABEL ...] [--json]",
  "  generate --size N --output FILE [--generator KIND] [--num-terminals N] [--seed N]",
  "  bench [--generator KIND] [--sizes N ...] [--num-terminals N] [--count N] [--runs N] [--timeout SECONDS]",
  "    [--parallel] [--output FILE]",
  "kinds: " ++ ", ".intercalate (GeneratorKind.all.map (·.name))]

/-! ## Arguments as a dictionary -/

def orNull {α : Type} (toValue : α → Value) (value : Option α) : Value := (value.map toValue).getD .null

def commandEntries : Command → List (String × Value)
  | .demo => [("command", .text "demo")]
  | .solve source options => [
    ("command", .text "solve"),
    ("instance", match source with | .instances path => .text path | .stp _ => .null),
    ("stp", match source with | .stp path => .text path | .instances _ => .null),
    ("terminals", orNull (fun words : List String => .list (words.map .text)) options.terminals),
    ("json", .bool options.json)]
  | .generate size output options => [
    ("command", .text "generate"),
    ("generator", .text options.generator.name),
    ("size", .int size),
    ("num_terminals", .int options.numTerminals),
    ("seed", orNull .int options.seed),
    ("output", .text output)]
  | .bench options => [
    ("command", .text "bench"),
    ("generator", .text options.generator.name),
    ("sizes", .list (options.sizes.map .int)),
    ("num_terminals", .int options.numTerminals),
    ("count", .int options.count),
    ("runs", .int options.runs),
    ("timeout", .float options.timeout),
    ("parallel", .bool options.parallel),
    ("output", orNull .text options.output)]

/-- The arguments as a dictionary. -/
def dump (arguments : Arguments) : Value :=
  .dict ([
    ("verbose", .bool arguments.verbose),
    ("max_terminals", orNull .int arguments.maxTerminals),
    ("merge_only", .bool arguments.mergeOnly)] ++ commandEntries arguments.command)

end Arguments

end CommandLine

end SteinerTrees
