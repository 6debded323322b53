import SteinerTrees.Decimal.Shortest
import SteinerTrees.Text.Quoted

/-! # Values

Labels of vertices, names of edges and everything an instance file holds are values: the data of JSON
together with tuples, which occur as labels only. A dictionary keeps its entries in the order in which
their names first occurred. -/

namespace SteinerTrees

inductive Value where
  | null
  | bool (b : Bool)
  | int (n : Int)
  | float (x : Binary64)
  | text (s : String)
  | tuple (items : List Value)
  | list (items : List Value)
  | dict (entries : List (String × Value))
  deriving Repr, Inhabited

namespace Value

/-- The name by which messages call the type of a value. -/
def typeName : Value → String
  | null => "NoneType"
  | bool _ => "bool"
  | int _ => "int"
  | float _ => "float"
  | text _ => "str"
  | tuple _ => "tuple"
  | list _ => "list"
  | dict _ => "dict"

/-- The entry of a dictionary under a name. -/
def lookup? {α : Type} (name : String) (entries : List (String × α)) : Option α :=
  (entries.find? (·.1 == name)).map (·.2)

/-- Replaces the entry under a name in place, or appends it. -/
def setEntry {α : Type} (name : String) (value : α) : List (String × α) → List (String × α)
  | [] => [(name, value)]
  | (other, old) :: rest =>
    if other = name then (name, value) :: rest else (other, old) :: setEntry name value rest

/-- A dictionary from entries of which a later one under the same name wins, at the earlier place. -/
def dictOfEntries (entries : List (String × Value)) : Value :=
  dict (entries.foldl (fun kept (name, value) => setEntry name value kept) [])

/-- Appends an entry unless the name is taken. -/
def setDefault (name : String) (value : Value) (entries : List (String × Value)) : List (String × Value) :=
  if (lookup? name entries).isSome then entries else entries ++ [(name, value)]

mutual
/-- A value as messages show it inside a list: texts are quoted. -/
def shown : Value → String
  | null => "None"
  | bool true => "True"
  | bool false => "False"
  | int n => toString n
  | float x => x.shown
  | text s => Text.quoted s
  | tuple [item] => "(" ++ shown item ++ ",)"
  | tuple items => "(" ++ ", ".intercalate (shownItems items) ++ ")"
  | list items => "[" ++ ", ".intercalate (shownItems items) ++ "]"
  | dict entries => "\x7b" ++ ", ".intercalate (shownEntries entries) ++ "\x7d"

def shownItems : List Value → List String
  | [] => []
  | item :: rest => shown item :: shownItems rest

def shownEntries : List (String × Value) → List String
  | [] => []
  | (name, value) :: rest => (Text.quoted name ++ ": " ++ shown value) :: shownEntries rest
end

mutual
/-- Whether a value has a text at all: every whole number in it can be written. -/
def isWritable : Value → Bool
  | int n => Decimal.isWritable n
  | tuple items | list items => areWritable items
  | dict entries => haveWritable entries
  | _ => true

def areWritable : List Value → Bool
  | [] => true
  | item :: rest => isWritable item && areWritable rest

def haveWritable : List (String × Value) → Bool
  | [] => true
  | (_, value) :: rest => isWritable value && haveWritable rest
end

/-- A value as messages show it on its own: a text is shown without quotes. -/
def display : Value → String
  | text s => s
  | other => other.shown

end Value

end SteinerTrees
