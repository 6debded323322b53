import SteinerTrees.Text.Blank
import SteinerTrees.Text.Digit
import SteinerTrees.Decimal.Shortest

/-! # Numbers in text

An integer is an optional sign and a run of decimal digits; a number also has a fraction, an exponent,
or is one of the words `inf`, `infinity` and `nan` in any case. Single underscores may stand between two
digits. Padding around a number is dropped; it is every blank except the four separators `0x1C` to
`0x1F`. Which digits count is left to the reader's caller. -/

namespace SteinerTrees.Decimal

/-- Blanks that may surround a number. -/
def isPadding (c : Char) : Bool := Text.isBlank c && !(0x1C ≤ c.toNat && c.toNat ≤ 0x1F)

def dropPadding (text : List Char) : List Char :=
  ((text.dropWhile isPadding).reverse.dropWhile isPadding).reverse

/-- The digits that follow a digit, and what comes after them. -/
def digitTail (digit? : Char → Option Nat) : List Char → List Nat × List Char
  | '_' :: c :: rest =>
    match digit? c with
    | some d => let (digits, rest) := digitTail digit? rest; (d :: digits, rest)
    | none => ([], '_' :: c :: rest)
  | c :: rest =>
    match digit? c with
    | some d => let (digits, rest) := digitTail digit? rest; (d :: digits, rest)
    | none => ([], c :: rest)
  | [] => ([], [])

/-- The digits at the start of a text, and what comes after them. -/
def digitRun (digit? : Char → Option Nat) : List Char → List Nat × List Char
  | c :: rest =>
    match digit? c with
    | some d => let (digits, rest) := digitTail digit? rest; (d :: digits, rest)
    | none => ([], c :: rest)
  | [] => ([], [])

def ofDigits (digits : List Nat) : Nat := digits.foldl (fun n d => 10 * n + d) 0

/-- Whether a text starts with a minus, and the text after its sign. -/
def readSign : List Char → Bool × List Char
  | '-' :: rest => (true, rest)
  | '+' :: rest => (false, rest)
  | rest => (false, rest)

/-- Why a text is no integer. -/
inductive IntegerFault where
  | malformed
  | tooLong (digits : Nat)
  deriving DecidableEq, Repr

/-- Reads an integer in the digits of any script. -/
def readInteger (text : String) : Except IntegerFault Int :=
  let (negative, body) := readSign (dropPadding text.toList)
  let (digits, rest) := digitRun Text.digitValue? body
  if digits = [] ∨ rest.head? = some '_' then .error .malformed
  else if digitLimit < digits.length then .error (.tooLong digits.length)
  else if rest ≠ [] then .error .malformed
  else .ok (if negative then -(ofDigits digits : Int) else ofDigits digits)

/-- The integer that a text stands for, if it is one. -/
def integer? (text : String) : Option Int := (readInteger text).toOption

/-- Reads the exponent behind a mantissa; without one it is zero. -/
def readExponent (digit? : Char → Option Nat) : List Char → Option Int
  | [] => some 0
  | mark :: rest =>
    if mark = 'e' ∨ mark = 'E' then
      let (negative, body) := readSign rest
      let (digits, rest) := digitRun digit? body
      if digits = [] ∨ rest ≠ [] then none
      else some (if negative then -(ofDigits digits : Int) else ofDigits digits)
    else none

/-- Reads a mantissa and an exponent. -/
def readMagnitude (digit? : Char → Option Nat) (negative : Bool) (text : List Char) : Option Binary64 :=
  let (whole, rest) := digitRun digit? text
  let (part, rest) := match rest with
    | '.' :: rest => digitRun digit? rest
    | rest => ([], rest)
  if whole = [] ∧ part = [] then none
  else (readExponent digit? rest).map fun exponent =>
    (⟨ofDigits (whole ++ part), exponent - part.length⟩ : Decimal).nearest negative

/-- Reads a number without padding. -/
def readUnpadded (digit? : Char → Option Nat) (text : List Char) : Option Binary64 :=
  let (negative, body) := readSign text
  let word := String.ofList (body.map Char.toLower)
  if word = "inf" ∨ word = "infinity" then some (.infinity negative)
  else if word = "nan" then some .nan
  else readMagnitude digit? negative body

/-- Reads a number in the digits of any script. -/
def readNumber (text : String) : Option Binary64 :=
  readUnpadded Text.digitValue? (dropPadding text.toList)

end SteinerTrees.Decimal
