import SteinerTrees.Text.Digit

/-! # Option grammar

Arguments are sorted into words and options before any option takes its words: a long option may be cut
short as long as one option fits, a mark `=` attaches a word to it, and flags of one letter may share a
dash. A negative number, an argument with a blank that fits no option, and everything behind a bare double
dash are words. An option takes its words from those right behind it, and never skips another option. -/

namespace SteinerTrees

namespace CommandLine

/-- How many words an option takes. -/
inductive Arity where
  | flag
  | single
  | several
  deriving DecidableEq, Repr

/-- The options that are understood: long ones, and the letters of those that take no word. Where a command
follows, the first word that belongs to no option ends the options. -/
structure Grammar where
  options : List (String × Arity)
  letters : List (Char × String)
  precedesCommand : Bool := false
  deriving Repr

/-- An argument by what it may be. An unknown option has no reading. -/
inductive Token where
  | word (text : String)
  | option (name : String) (arity : Arity) (attached : Option String)
  | cluster (letters : List Char)
  | unknown
  | separator
  deriving DecidableEq, Repr

/-- What an argument line says: options with their words, arguments that belong to nothing, and the first
fault. -/
inductive Item where
  | option (name : String) (words : List String)
  | stray
  | malformed
  deriving DecidableEq, Repr

/-- Whether a text is written like a negative number: a dash and digits, of which some may follow a point.
A line end behind it does not count. -/
def isNegativeNumber (text : List Char) : Bool :=
  match text with
  | '-' :: rest =>
    let body := if rest.getLast? = some '\n' then rest.dropLast else rest
    let whole := body.takeWhile fun c => (Text.digitValue? c).isSome
    match body.drop whole.length with
    | [] => !whole.isEmpty
    | '.' :: places => !places.isEmpty && places.all fun c => (Text.digitValue? c).isSome
    | _ => false
  | _ => false

namespace Grammar

/-- The reading of an argument with two dashes. -/
def long (grammar : Grammar) (name : String) (attached : Option String) (looksLikeWord : Bool) (text : String) :
    Option Token :=
  match grammar.options.find? (·.1 == name) with
  | some (name, arity) => some (.option name arity attached)
  | none =>
    match grammar.options.filter fun entry => entry.1.startsWith name with
    | [(name, arity)] => some (.option name arity attached)
    | [] => some (if looksLikeWord then .word text else .unknown)
    | _ => none

/-- The reading of an argument with one dash. A mark `=` behind the first letter may set the others apart. -/
def short (grammar : Grammar) (letter : Char) (rest : List Char) (text : String) : Token :=
  if (grammar.letters.lookup letter).isSome then
    match rest with
    | '=' :: next :: more => .cluster (letter :: next :: more)
    | _ => .cluster (letter :: rest)
  else if isNegativeNumber text.toList ∨ ' ' ∈ text.toList then .word text
  else .unknown

/-- The reading of an argument; none if several long options fit. -/
def token? (grammar : Grammar) (text : String) : Option Token :=
  match text.toList with
  | '-' :: '-' :: body =>
    let name := body.takeWhile (· ≠ '=')
    let attached := match body.drop name.length with
      | _ :: value => some (String.ofList value)
      | [] => none
    grammar.long (String.ofList name) attached (' ' ∈ body) text
  | '-' :: letter :: rest => some (grammar.short letter rest text)
  | _ => some (.word text)

/-- The readings of all arguments; none if one of them has no single reading. -/
def tokens? (grammar : Grammar) : List String → Option (List Token)
  | [] => some []
  | text :: rest =>
    if text = "--" then some (.separator :: rest.map .word)
    else do
      let first ← grammar.token? text
      return first :: (← grammar.tokens? rest)

/-- The flags of a cluster; one unknown letter spoils it as a whole. -/
def cluster (grammar : Grammar) (letters : List Char) : List Item :=
  match letters.mapM fun letter => grammar.letters.lookup letter with
  | some names => names.map fun name => .option name []
  | none => [.malformed]

/-- The words at the head of a list of tokens. -/
def leadingWords : List Token → List String
  | .word text :: rest => text :: leadingWords rest
  | _ => []

/-- The words that an option takes: an attached one, or some of those behind it. A bare double dash that is
attached is no word. -/
def wordsOf (arity : Arity) (attached : Option String) (behind : List String) : Option (List String) :=
  match arity, attached, behind with
  | .flag, none, _ => some []
  | .flag, some _, _ => none
  | _, some word, _ => some (if word = "--" then [] else [word])
  | .single, none, word :: _ => some [word]
  | .several, none, word :: more => some (word :: more)
  | _, none, [] => none

/-- What tokens say, and the tokens from the command on. A fault ends the reading. -/
def scan (grammar : Grammar) : List Token → List Item × List Token
  | [] => ([], [])
  | .option name arity attached :: rest =>
    match wordsOf arity attached (leadingWords rest) with
    | some words =>
      let taken := if attached.isSome then 0 else words.length
      let (items, tail) := scan grammar (rest.drop taken)
      (.option name words :: items, tail)
    | none => ([.malformed], [])
  | .cluster letters :: rest =>
    let (items, tail) := scan grammar rest
    (grammar.cluster letters ++ items, tail)
  | .unknown :: rest =>
    let (items, tail) := scan grammar rest
    (.stray :: items, tail)
  | token :: rest =>
    if grammar.precedesCommand then ([], token :: rest)
    else
      let (items, tail) := scan grammar rest
      (.stray :: items, tail)
termination_by tokens => tokens.length
decreasing_by all_goals simp_wf; try omega

end Grammar

end CommandLine

end SteinerTrees
