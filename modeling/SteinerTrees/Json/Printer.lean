import SteinerTrees.Text.Surrogate
import SteinerTrees.Value.Basic

/-! # Writing JSON

Three layouts of one value. `indented` is the layout of instance files: two blanks a level, one member a
line, and ASCII characters only, so that a character beyond them is given by its UTF-16 units. `compact`
writes on one line and marks what is no JSON: a tuple is a dictionary with the one entry `$tuple`, and a
float that is not finite is a text. `textKey` is the compact text that keeps all characters and has the
names of every dictionary in order; collections without an order of their own are listed by it. A float is
written as its shortest text. -/

namespace SteinerTrees.Json

/-- One UTF-16 unit as an escape. -/
def unitEscape (unit : Nat) : List Char := '\\' :: 'u' :: Text.hex 4 unit

/-- A code point beyond ASCII as one or two escapes. -/
def escapeUnits (n : Nat) : List Char :=
  if n < 0x10000 then unitEscape n
  else unitEscape (0xD800 + (n - 0x10000) / 0x400) ++ unitEscape (0xDC00 + (n - 0x10000) % 0x400)

/-- A character inside a text. -/
def escapeChar (c : Char) : List Char :=
  if c = '"' ∨ c = '\\' then ['\\', c]
  else if c = '\n' then ['\\', 'n']
  else if c = '\r' then ['\\', 'r']
  else if c = '\t' then ['\\', 't']
  else if c = '\x08' then ['\\', 'b']
  else if c = '\x0c' then ['\\', 'f']
  else if c.toNat < 0x20 then unitEscape c.toNat
  else [c]

/-- A code point inside a text in ASCII: only the characters from the blank to the tilde stay. -/
def escapePoint (code : Nat) : List Char :=
  if 0x7E < code then escapeUnits code else escapeChar (Char.ofNat code)

/-- What stands between the quotes of a text. -/
def escaped (ascii : Bool) (text : String) : List Char :=
  if ascii then (Text.points text).flatMap escapePoint else text.toList.flatMap escapeChar

/-- A text between double quotes. -/
def quote (ascii : Bool) (text : String) : String := String.ofList ('"' :: escaped ascii text ++ ['"'])

/-- A value that is not compound. -/
def scalar (ascii : Bool) : Value → String
  | .null => "null"
  | .bool b => if b then "true" else "false"
  | .int n => toString n
  | .float x => x.render "Infinity" "NaN"
  | .text s => quote ascii s
  | .tuple _ | .list _ | .dict _ => ""

/-- A dictionary on one line. -/
def braced (members : List String) : String := "\x7b" ++ ", ".intercalate members ++ "\x7d"

/-- A list on one line. -/
def bracketed (members : List String) : String := "[" ++ ", ".intercalate members ++ "]"

mutual
/-- The compact text of a value, the entries of dictionaries sorted by name if `sorted`. -/
def compact (ascii sorted : Bool) : Value → String
  | .tuple items => braced ["\"$tuple\": " ++ bracketed (compactItems ascii sorted items)]
  | .list items => bracketed (compactItems ascii sorted items)
  | .dict entries =>
    let texts := compactEntries ascii sorted entries
    let texts := if sorted then texts.mergeSort fun a b => Text.precedes a.1 b.1 else texts
    braced (texts.map fun entry => quote ascii entry.1 ++ ": " ++ entry.2)
  | .float x => if x.isFinite then x.shown else quote ascii x.shown
  | other => scalar ascii other

def compactItems (ascii sorted : Bool) : List Value → List String
  | [] => []
  | item :: rest => compact ascii sorted item :: compactItems ascii sorted rest

def compactEntries (ascii sorted : Bool) : List (String × Value) → List (String × String)
  | [] => []
  | (name, value) :: rest => (name, compact ascii sorted value) :: compactEntries ascii sorted rest
end

/-- The text by which members of a collection without an order are listed. -/
def textKey (value : Value) : String := compact false true value

/-- Values in the order of their text keys. -/
def sortByText (values : List Value) : List Value :=
  ((values.map fun value => (textKey value, value)).mergeSort fun a b => Text.precedes a.1 b.1).map (·.2)

/-- The end of a line and the blanks of a level. -/
def newline (level : Nat) : String := String.ofList ('\n' :: List.replicate (2 * level) ' ')

/-- Members of a compound value, each on a line of its own, one level in. -/
def block (opening closing : String) (level : Nat) (members : List String) : String :=
  if members.isEmpty then opening ++ closing
  else opening ++ newline (level + 1) ++ ("," ++ newline (level + 1)).intercalate members ++ newline level ++ closing

mutual
/-- The indented text of a value that starts at a level. -/
def indented (level : Nat) : Value → String
  | .tuple items | .list items => block "[" "]" level (indentedItems (level + 1) items)
  | .dict entries => block "\x7b" "\x7d" level (indentedEntries (level + 1) entries)
  | other => scalar true other

def indentedItems (level : Nat) : List Value → List String
  | [] => []
  | item :: rest => indented level item :: indentedItems level rest

def indentedEntries (level : Nat) : List (String × Value) → List String
  | [] => []
  | (name, value) :: rest => (quote true name ++ ": " ++ indented level value) :: indentedEntries level rest
end

end SteinerTrees.Json
