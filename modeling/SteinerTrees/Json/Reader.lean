import SteinerTrees.Decimal.Reading
import SteinerTrees.Failure
import SteinerTrees.Text.Surrogate

/-! # Reading JSON

The reader follows the grammar with three additions: `NaN`, `Infinity` and `-Infinity` are numbers, a
number too large for a float is infinite, and of two entries under one name the later wins. A number
without fraction and exponent is an integer of any size up to the limit on digits. Anything after the
value but blanks is a fault. Values may be nested to any depth; the depth that a reader on a machine reaches depends on
the space that is left for its calls, which is not modelled. -/

namespace SteinerTrees.Json

def isSpace (c : Char) : Bool := c = ' ' || c = '\t' || c = '\n' || c = '\r'

def skip (text : List Char) : List Char := text.dropWhile isSpace

def hexValue? (c : Char) : Option Nat :=
  if '0' ≤ c ∧ c ≤ '9' then some (c.toNat - 48)
  else if 'a' ≤ c ∧ c ≤ 'f' then some (c.toNat - 87)
  else if 'A' ≤ c ∧ c ≤ 'F' then some (c.toNat - 55)
  else none

/-- The UTF-16 unit of four hexadecimal digits. -/
def unit? (a b c d : Char) : Option Nat := do
  return (((← hexValue? a) * 16 + (← hexValue? b)) * 16 + (← hexValue? c)) * 16 + (← hexValue? d)

/-- The character of an escape with one letter. -/
def shortEscape? : Char → Option Char
  | '"' => some '"'
  | '\\' => some '\\'
  | '/' => some '/'
  | 'b' => some '\x08'
  | 'f' => some '\x0c'
  | 'n' => some '\n'
  | 'r' => some '\r'
  | 't' => some '\t'
  | _ => none

/-- The codes of a text up to its closing quote, and what follows; `held` counts the marks read just before. An
escape gives one UTF-16 unit, and everything else stands for its code points. -/
def readCodes : Nat → List Char → Option (List Nat × List Char)
  | held, '"' :: rest => some (List.replicate held Text.lastPoint, rest)
  | held, '\\' :: 'u' :: a :: b :: c :: d :: rest => do
    let unit ← unit? a b c d
    let (codes, rest) ← readCodes 0 rest
    return (List.replicate held Text.lastPoint ++ unit :: codes, rest)
  | held, '\\' :: c :: rest => do
    let char ← shortEscape? c
    let (codes, rest) ← readCodes 0 rest
    return (List.replicate held Text.lastPoint ++ char.toNat :: codes, rest)
  | held, c :: rest =>
    if c.toNat < 0x20 then none
    else if c = Text.mark then readCodes (held + 1) rest
    else (readCodes 0 rest).map fun (codes, rest) => (Text.pointsOf held c ++ codes, rest)
  | _, [] => none

/-- The code point of a high and a low surrogate, if the two are a pair. -/
def pair? (high low : Nat) : Option Nat :=
  if Text.isHighSurrogate high && Text.isLowSurrogate low then
    some (0x10000 + (high - 0xD800) * 0x400 + (low - 0xDC00))
  else none

/-- Code points from codes in which a pair of surrogates stands for one code point and others for themselves. -/
def joinUnits : List Nat → List Nat
  | high :: low :: rest =>
    match pair? high low with
    | some code => code :: joinUnits rest
    | none => high :: joinUnits (low :: rest)
  | [code] => [code]
  | [] => []

/-- A text after its opening quote. -/
def readText (text : List Char) : Except Failure (String × List Char) :=
  match readCodes 0 text with
  | some (codes, rest) => .ok (Text.ofPoints (joinUnits codes), rest)
  | none => .error .jsonSyntax

/-- The digits at the start of a text. -/
def digits (text : List Char) : List Nat × List Char :=
  let run := text.takeWhile Char.isDigit
  (run.map (·.toNat - 48), text.drop run.length)

/-- The whole part of a number: a zero on its own, or digits that do not start with one. -/
def readWhole : List Char → Option (List Nat × List Char)
  | '0' :: rest => some ([0], rest)
  | text => match digits text with
    | ([], _) => none
    | found => some found

/-- The fraction, if a point and a digit follow. -/
def readFraction : List Char → Option (List Nat × List Char)
  | '.' :: rest => match digits rest with
    | ([], _) => none
    | found => some found
  | _ => none

/-- The exponent, if its mark and a digit follow. -/
def readExponent : List Char → Option (Int × List Char)
  | mark :: rest =>
    if mark = 'e' ∨ mark = 'E' then
      let (negative, body) := Decimal.readSign rest
      match digits body with
      | ([], _) => none
      | (found, rest) =>
        let size : Int := Decimal.ofDigits found
        some (if negative then -size else size, rest)
    else none
  | [] => none

/-- A number after its sign. -/
def readNumber (negative : Bool) (text : List Char) : Except Failure (Value × List Char) :=
  match readWhole text with
  | none => .error .jsonSyntax
  | some (whole, rest) =>
    let fraction := readFraction rest
    let (part, rest) := fraction.getD ([], rest)
    let exponent := readExponent rest
    let (power, rest) := exponent.getD (0, rest)
    if fraction.isNone ∧ exponent.isNone then
      if Decimal.digitLimit < whole.length then .error (.integerTooLong whole.length)
      else
        let size : Int := Decimal.ofDigits whole
        .ok (.int (if negative then -size else size), rest)
    else
      let decimal : Decimal := ⟨Decimal.ofDigits (whole ++ part), power - part.length⟩
      .ok (.float (decimal.nearest negative), rest)

/-- A value that is not compound. -/
def readScalar : List Char → Except Failure (Value × List Char)
  | '"' :: rest => (readText rest).map fun (text, rest) => (.text text, rest)
  | 'n' :: 'u' :: 'l' :: 'l' :: rest => .ok (.null, rest)
  | 't' :: 'r' :: 'u' :: 'e' :: rest => .ok (.bool true, rest)
  | 'f' :: 'a' :: 'l' :: 's' :: 'e' :: rest => .ok (.bool false, rest)
  | 'N' :: 'a' :: 'N' :: rest => .ok (.float .nan, rest)
  | 'I' :: 'n' :: 'f' :: 'i' :: 'n' :: 'i' :: 't' :: 'y' :: rest => .ok (.float (.infinity false), rest)
  | '-' :: 'I' :: 'n' :: 'f' :: 'i' :: 'n' :: 'i' :: 't' :: 'y' :: rest => .ok (.float (.infinity true), rest)
  | '-' :: rest => readNumber true rest
  | text => readNumber false text

mutual
/-- Reads one value; `fuel` bounds the nesting and the number of members. -/
def readValue : Nat → List Char → Except Failure (Value × List Char)
  | fuel + 1, '[' :: rest =>
    match skip rest with
    | ']' :: rest => .ok (.list [], rest)
    | rest => (readItems fuel rest).map fun (items, rest) => (.list items, rest)
  | fuel + 1, '\x7b' :: rest =>
    match skip rest with
    | '\x7d' :: rest => .ok (.dict [], rest)
    | rest => (readEntries fuel rest).map fun (entries, rest) => (Value.dictOfEntries entries, rest)
  | _ + 1, text => readScalar text
  | 0, _ => .error .jsonSyntax

/-- The members of a list and its closing bracket. -/
def readItems : Nat → List Char → Except Failure (List Value × List Char)
  | fuel + 1, text => do
    let (item, rest) ← readValue fuel text
    match skip rest with
    | ',' :: rest =>
      let (items, rest) ← readItems fuel (skip rest)
      return (item :: items, rest)
    | ']' :: rest => return ([item], rest)
    | _ => throw .jsonSyntax
  | 0, _ => .error .jsonSyntax

/-- The entries of a dictionary and its closing bracket. -/
def readEntries : Nat → List Char → Except Failure (List (String × Value) × List Char)
  | fuel + 1, '"' :: rest => do
    let (name, rest) ← readText rest
    match skip rest with
    | ':' :: rest =>
      let (value, rest) ← readValue fuel (skip rest)
      match skip rest with
      | ',' :: rest =>
        let (entries, rest) ← readEntries fuel (skip rest)
        return ((name, value) :: entries, rest)
      | '\x7d' :: rest => return ([(name, value)], rest)
      | _ => throw .jsonSyntax
    | _ => throw .jsonSyntax
  | _, _ => .error .jsonSyntax
end

/-- Reads a whole text as one value. There is no limit on how deep values are nested: a machine that cannot follow them
and fails is not modelled. -/
def read (text : String) : Except Failure Value := do
  let (value, rest) ← readValue (2 * text.length + 2) (skip text.toList)
  if skip rest = [] then return value else throw .jsonSyntax

end SteinerTrees.Json
