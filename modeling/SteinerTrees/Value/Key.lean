import SteinerTrees.Value.Basic

/-! # Which values are the same

Two values are the same entry of a set exactly when their keys agree. A key lists the parts of a value
in reading order, each compound part opened by its length: numbers are compared by value across truth
values, integers and floats, so that `1`, `1.0` and `true` share a key, and the entries of a
dictionary are sorted by name. Only floats that are not a number part the two notions of equality:
they share a key, and no comparison finds them equal. -/

namespace SteinerTrees

/-- One part of a key. -/
inductive KeyPart where
  | null
  | number (n : Int)
  | float (x : Binary64)
  | text (s : String)
  | tuple (size : Nat)
  | list (size : Nat)
  | dict (size : Nat)
  deriving DecidableEq, Repr

abbrev Key := List KeyPart

namespace Value

/-- The part that stands for a float. -/
def floatPart (x : Binary64) : KeyPart :=
  if x.isNaN then .float .nan
  else match x.toInt? with
    | some n => .number n
    | none => .float x

mutual
def key : Value → Key
  | null => [.null]
  | bool b => [.number b.toInt]
  | int n => [.number n]
  | float x => [floatPart x]
  | text s => [.text s]
  | tuple items => .tuple items.length :: keyOfItems items
  | list items => .list items.length :: keyOfItems items
  | dict entries =>
    .dict entries.length :: ((keysOfEntries entries).mergeSort fun a b => a.1 ≤ b.1).flatMap
      fun (name, key) => .text name :: key

def keyOfItems : List Value → Key
  | [] => []
  | item :: rest => key item ++ keyOfItems rest

def keysOfEntries : List (String × Value) → List (String × Key)
  | [] => []
  | (name, value) :: rest => (name, key value) :: keysOfEntries rest
end

/-- Whether two values are the same member of a set. -/
def same (a b : Value) : Bool := a.key == b.key

def isNaN : Value → Bool
  | float x => x.isNaN
  | _ => false

/-- Whether a comparison finds two values equal. -/
def equal (a b : Value) : Bool := a.same b && !a.isNaN

/-- Whether a value equals itself. -/
def Reflexive (a : Value) : Prop := a.isNaN = false

/-- Whether a value is a member of a list taken as a set. -/
def isIn (a : Value) (members : List Value) : Bool := members.any (a.same ·)

/-- `distinctFrom seen values` drops the values that occur in `seen` or earlier in the list. -/
def distinctFrom (seen : List Key) : List Value → List Value
  | [] => []
  | value :: rest =>
    if value.key ∈ seen then distinctFrom seen rest
    else value :: distinctFrom (value.key :: seen) rest

/-- First occurrences, in order. -/
def distinct (values : List Value) : List Value := distinctFrom [] values

mutual
/-- The first list or dictionary inside nested tuples; a value without one can be a member of a set. -/
def unhashablePart? : Value → Option Value
  | list items => some (list items)
  | dict entries => some (dict entries)
  | tuple items => unhashableItem? items
  | _ => none

def unhashableItem? : List Value → Option Value
  | [] => none
  | item :: rest => (unhashablePart? item).orElse fun _ => unhashableItem? rest
end

/-- Whether a value can be a label. -/
def isHashable (a : Value) : Bool := a.unhashablePart?.isNone

end Value

end SteinerTrees
