import SteinerTrees.Failure

/-! # Numbers among values

Truth values, integers and floats are numbers, and compare by value. What is not a number has no quantity,
and a float that is not a number has one that compares with nothing. -/

namespace SteinerTrees

/-- The quantity of a number: a quotient, an infinity, or one that is not defined. -/
inductive Quantity where
  | finite (num : Int) (den : Nat)
  | infinite (negative : Bool)
  | undefined
  deriving DecidableEq, Repr

namespace Quantity

def ofInt (n : Int) : Quantity := finite n 1

def isBelow : Quantity → Quantity → Bool
  | finite a b, finite c d => a * d < c * b
  | finite .., infinite negative => !negative
  | infinite negative, finite .. => negative
  | infinite a, infinite b => a && !b
  | _, _ => false

/-- Two defined quantities are in one order or the other. -/
def isAtMost (a b : Quantity) : Bool := a ≠ undefined && b ≠ undefined && !b.isBelow a

/-- The least natural number that is not below a quantity. -/
def ceiling? : Quantity → Option Nat
  | finite num den => some ((num + den - 1) / den).toNat
  | _ => none

end Quantity

def Binary64.quantity (x : Binary64) : Quantity :=
  if x.isNaN then .undefined
  else if x.isInfinite then .infinite x.negative
  else .finite (if x.negative then -(x.numerator : Int) else x.numerator) x.denominator

namespace Value

/-- The quantity of a value, which has to be a number. -/
def quantity (value : Value) : Except Failure Quantity :=
  match value with
  | int n => .ok (.ofInt n)
  | bool b => .ok (.ofInt b.toInt)
  | float x => .ok x.quantity
  | other => .error (.misuse (.notNumber "a number" other))

/-- A value that counts: an integer or a truth value. -/
def count (value : Value) : Except Failure Int :=
  match value with
  | int n => .ok n
  | bool b => .ok b.toInt
  | other => .error (.misuse (.notNumber "an integer" other))

/-- A number plus an integer. -/
def plus (value : Value) (n : Int) : Except Failure Value :=
  match value with
  | int m => .ok (int (m + n))
  | bool b => .ok (int (b.toInt + n))
  | float x => .ok (float (x.addInt n))
  | other => .error (.misuse (.notNumber "a number" other))

def isNumber (value : Value) : Bool := value.quantity.isOk

def isText : Value → Bool
  | text _ => true
  | _ => false

/-- The order of texts and that of numbers. -/
def precedes : Value → Value → Bool
  | text a, text b => Text.precedes a b
  | a, b => match a.quantity, b.quantity with
    | .ok a, .ok b => a.isAtMost b
    | _, _ => false

/-- Whether each two of some values compare: they are all texts, all numbers, or a single value. -/
def areOrdered (values : List Value) : Bool :=
  values.length < 2 || values.all isText || values.all isNumber

end Value

end SteinerTrees
