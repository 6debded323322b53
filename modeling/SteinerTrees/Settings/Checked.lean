import SteinerTrees.Decimal.Reading
import SteinerTrees.Failure
import SteinerTrees.Value.Basic

/-! # Checking values against rules

A check turns a value into what a setting needs, or names the rule that the value breaks. Faults of
several settings are collected, each with the path to its place, so that one check reports all of them.
Numbers are read leniently: whole floats, truth values and texts of numbers are accepted. -/

namespace SteinerTrees

/-- The outcome of a check: what was asked for, or every fault. -/
inductive Checked (α : Type) where
  | ok (value : α)
  | faults (issues : List Issue)
  deriving Repr

namespace Checked

instance : Functor Checked where
  map f
    | ok value => ok (f value)
    | faults issues => faults issues

/-- Both outcomes, with the faults of both. -/
def both {α β : Type} : Checked α → Checked β → Checked (α × β)
  | ok a, ok b => ok (a, b)
  | ok _, faults issues => faults issues
  | faults issues, ok _ => faults issues
  | faults left, faults right => faults (left ++ right)

instance : Applicative Checked where
  pure := ok
  seq f x := (fun (g, a) => g a) <$> both f (x ())

def fault {α : Type} (rule : String) : Checked α := faults [⟨[], rule⟩]

/-- The same outcome one step further down a path. -/
def under {α : Type} (step : String) : Checked α → Checked α
  | ok value => ok value
  | faults issues => faults (issues.map fun issue => { issue with path := step :: issue.path })

/-- A further rule on a value that passed. -/
def require {α : Type} (holds : α → Bool) (rule : String) : Checked α → Checked α
  | ok value => if holds value then ok value else fault rule
  | faults issues => faults issues

def toExcept {α : Type} (model : String) : Checked α → Except Failure α
  | ok value => .ok value
  | faults issues => .error (.invalid model issues)

/-- All members of a list, each at its position. -/
def all {α : Type} (check : Value → Checked α) : Nat → List Value → Checked (List α)
  | _, [] => ok []
  | position, value :: rest =>
    let first := (check value).under (toString position)
    (fun (first, rest) => first :: rest) <$> both first (all check (position + 1) rest)

/-! ## Numbers -/

/-- A text without its single underscores, if they all stand inside. -/
def withoutUnderscores (text : List Char) : Option (List Char) :=
  if text.head? = some '_' ∨ text.getLast? = some '_' ∨ (text.zip text.tail).any (· = ('_', '_')) then none
  else some (text.filter (· ≠ '_'))

/-- What is left behind leading zeros, the last of which was `zero`: the number from its first other digit
or its sign on, or a zero if there is none. Underscores between the zeros do not count. -/
def dropZeros (zero : Char) : List Char → Option (List Char)
  | [] => some [zero]
  | c :: rest =>
    if c = '0' ∨ c = '_' then dropZeros c rest
    else if c = '-' ∨ (Text.asciiDigit? c).isSome then some (c :: rest)
    else if c = '.' then some (zero :: c :: rest)
    else none

/-- The text of an integer without leading zeros. A text that does not start with a digit is none. -/
def withoutLeadingZeros : List Char → Option (List Char)
  | '0' :: rest => dropZeros '0' rest
  | c :: rest => if (Text.asciiDigit? c).isSome then some (c :: rest) else none
  | [] => none

/-- The part of a text in front of a point with zeros only, and at least one, behind it. -/
def beforeZeros (text : List Char) : List Char :=
  let whole := text.takeWhile (· ≠ '.')
  let part := text.drop (whole.length + 1)
  if part ≠ [] ∧ part.all (· = '0') then whole else text

/-- The text of a magnitude in its plain form: without leading zeros, a fraction of zeros, and underscores. -/
def plainMagnitude (text : List Char) : Option (List Char) := do
  let text := beforeZeros (← withoutLeadingZeros text)
  return (withoutUnderscores text).getD text

/-- The text of an integer in its plain form. A plus goes with no minus. -/
def plainInteger (text : String) : Option (List Char) :=
  match Decimal.dropPadding text.toList with
  | '-' :: rest => (plainMagnitude rest).map ('-' :: ·)
  | '+' :: rest => plainMagnitude rest
  | rest => plainMagnitude rest

/-- The digits at the head of a text behind a minus or none, and what follows them. -/
def leadingDigits (text : List Char) : List Char × List Char :=
  let body := if text.head? = some '-' then text.tail else text
  let digits := body.takeWhile fun c => (Text.asciiDigit? c).isSome
  (digits, body.drop digits.length)

/-- Whether a text starts with the digits of an integer, of which there are too many. -/
def startsTooLong (text : List Char) : Bool :=
  let digits := (leadingDigits text).1
  digits.head? != some '0' && Decimal.digitLimit < digits.length

/-- The integer of a plain form: a minus or none, and digits of which the first of several is not zero. -/
def integerOfPlain (text : List Char) : Option Int :=
  let (digits, behind) := leadingDigits text
  let padded : Bool := digits.head? = some '0' ∧ 1 < digits.length
  if behind ≠ [] ∨ digits = [] ∨ padded ∨ Decimal.digitLimit < digits.length then none
  else
    let size : Int := Decimal.ofDigits (digits.filterMap Text.asciiDigit?)
    some (if text.head? = some '-' then -size else size)

/-- Reads an integer. Only a text that starts with too many digits as it stands is called too long. -/
def integerOfText (text : String) : Checked Int :=
  if startsTooLong text.toList then fault "int_parsing_size"
  else match (plainInteger text).bind integerOfPlain with
    | some n => ok n
    | none => fault "int_parsing"

/-- Whole floats below this magnitude are integers. -/
def wholeLimit : Int := 9223372036854775808

def integerOfFloat (x : Binary64) : Checked Int :=
  if !x.isFinite then fault "finite_number"
  else match x.toInt? with
    | some n => if -wholeLimit < n ∧ n < wholeLimit then ok n else fault "int_parsing_size"
    | none => fault "int_from_float"

/-- Reads a text that has no lone surrogates. -/
def readable {α : Type} (read : String → Checked α) (text : String) : Checked α :=
  if (Text.points text).any Text.isSurrogate then fault "string_unicode" else read text

def integer : Value → Checked Int
  | .int n => ok n
  | .bool b => ok b.toInt
  | .float x => integerOfFloat x
  | .text s => readable integerOfText s
  | _ => fault "int_type"

/-- Reads a number in ASCII digits. Padding and underscores do not go together. -/
def numberOfText (text : String) : Checked Binary64 :=
  let plain := if '_' ∈ text.toList then withoutUnderscores text.toList else some (Decimal.dropPadding text.toList)
  match plain.bind (Decimal.readUnpadded Text.asciiDigit?) with
  | some x => ok x
  | none => fault "float_parsing"

def number : Value → Checked Binary64
  | .float x => ok x
  | .int n =>
    let x := Binary64.ofInt n
    if x.isFinite then ok x else fault "float_type"
  | .bool b => ok (Binary64.ofInt b.toInt)
  | .text s => readable numberOfText s
  | _ => fault "float_type"

/-! ## Truth values and texts -/

def truthOfInteger (n : Int) : Checked Bool :=
  if n = 0 then ok false else if n = 1 then ok true else fault "bool_parsing"

def truthOfText (text : String) : Checked Bool :=
  let word := text.toLower
  if word ∈ ["0", "off", "f", "false", "n", "no"] then ok false
  else if word ∈ ["1", "on", "t", "true", "y", "yes"] then ok true
  else fault "bool_parsing"

def truth : Value → Checked Bool
  | .bool b => ok b
  | .int n => if -wholeLimit ≤ n ∧ n < wholeLimit then truthOfInteger n else fault "bool_type"
  | .float x =>
    match integerOfFloat x with
    | ok n => truthOfInteger n
    | faults _ => fault "bool_type"
  | .text s => readable truthOfText s
  | _ => fault "bool_type"

def text : Value → Checked String
  | .text s => ok s
  | _ => fault "string_type"

/-! ## Compound values -/

def listOf {α : Type} (check : Value → Checked α) : Value → Checked (List α)
  | .list items | .tuple items => all check 0 items
  | _ => fault "list_type"

def dictionary : Value → Checked (List (String × Value))
  | .dict entries => ok entries
  | _ => fault "dict_type"

def model {α : Type} (check : List (String × Value) → Checked α) : Value → Checked α
  | .dict entries => check entries
  | _ => fault "model_type"

/-- A setting that may go by several names, of which the first that is present counts. -/
def fieldOf {α : Type} (names : List String) (default? : Option α) (check : Value → Checked α)
    (entries : List (String × Value)) : Checked α :=
  match names.findSome? fun name => (Value.lookup? name entries).map fun value => (name, value) with
  | some (name, value) => (check value).under name
  | none =>
    match default? with
    | some default => ok default
    | none => (fault "missing").under (names.headD "")

def field {α : Type} (name : String) (default? : Option α) (check : Value → Checked α)
    (entries : List (String × Value)) : Checked α :=
  fieldOf [name] default? check entries

def atLeast (bound : Int) (check : Checked Int) : Checked Int :=
  check.require (fun n => bound ≤ n) "greater_than_equal"

end Checked

end SteinerTrees
