import SteinerTrees.Failure
import SteinerTrees.Value.Key

/-! # Access to values

Reading a value as a collection, a dictionary or a pair, with the failure that each reading has. -/

namespace SteinerTrees.Value

/-- The members of a collection: the items of a list, the characters of a text, the names of a
dictionary. -/
def items : Value → Except Failure (List Value)
  | tuple items | list items => .ok items
  | text s => .ok ((Text.points s).map fun code => text (Text.ofPoints [code]))
  | dict entries => .ok (entries.map fun entry => text entry.1)
  | other => .error (.misuse (.notIterable other))

/-- The number of members of a collection. -/
def length : Value → Except Failure Nat
  | tuple items | list items => .ok items.length
  | text s => .ok (Text.points s).length
  | dict entries => .ok entries.length
  | other => .error (.misuse (.noLength other))

/-- The entry under a name, which has to be there. -/
def field (value : Value) (name : String) : Except Failure Value :=
  match value with
  | dict entries => match lookup? name entries with
    | some found => .ok found
    | none => .error (.missingKey (text name))
  | other => .error (.misuse (.noFields other))

/-- The entry under a name, or a default. -/
def get (value : Value) (name : String) (default : Value) : Except Failure Value :=
  match value with
  | dict entries => .ok ((lookup? name entries).getD default)
  | other => .error (.lacksMethod other "get")

/-- A value that can be a label, or the failure to be one. -/
def asLabel (value : Value) : Except Failure Value :=
  match value.unhashablePart? with
  | some part => .error (.misuse (.unhashable part))
  | none => .ok value

/-- The members of a collection taken as a set. -/
def asSet (value : Value) : Except Failure (List Value) := do
  let members ← value.items
  return distinct (← members.mapM asLabel)

/-- The whole numbers from zero on. -/
def numbers (count : Nat) : List Value := (List.range count).map fun n : Nat => .int n

/-- A list of the whole numbers from zero on. Lengths are counted below `2 ^ 63`, and a list of `2 ^ 60` members or
more has no room in any memory. -/
def listNumbers (count : Nat) : Except Failure (List Value) :=
  if Nat.pow 2 63 ≤ count then .error .countTooLarge
  else if Nat.pow 2 60 ≤ count then .error .outOfMemory
  else .ok (numbers count)

/-- The two members of a collection of two. -/
def asPair (value : Value) : Except Failure (Value × Value) := do
  match ← value.items with
  | [a, b] => return (a, b)
  | [] => throw (.tooFewItems 0)
  | [_] => throw (.tooFewItems 1)
  | _ => throw .tooManyItems

end SteinerTrees.Value
