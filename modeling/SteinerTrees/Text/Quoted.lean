import SteinerTrees.Text.Printable
import SteinerTrees.Text.Surrogate

/-! # Quoted text

How a text is shown inside messages: between single quotes, or between double quotes when it holds
a single quote and no double quote. The closing quote and the backslash are escaped, tabs and line ends
have their short escapes, and every character that is not printable is given by its code point in
hexadecimal. -/

namespace SteinerTrees.Text

/-- The digit of a value below sixteen, in lower case. -/
def hexDigit (value : Nat) : Char :=
  if value < 10 then Char.ofNat (48 + value) else Char.ofNat (87 + value)

/-- The last `width` hexadecimal digits of a number, in lower case. -/
def hex : Nat → Nat → List Char
  | 0, _ => []
  | width + 1, n => hex width (n / 16) ++ [hexDigit (n % 16)]

/-- A code point in the shortest of the forms with two, four and eight digits. -/
def escapeCode (n : Nat) : List Char :=
  if n < 0x100 then '\\' :: 'x' :: hex 2 n
  else if n < 0x10000 then '\\' :: 'u' :: hex 4 n
  else '\\' :: 'U' :: hex 8 n

/-- One character between two quotes `quote`. -/
def quoteChar (quote c : Char) : List Char :=
  if c = quote ∨ c = '\\' then ['\\', c]
  else if c = '\n' then ['\\', 'n']
  else if c = '\r' then ['\\', 'r']
  else if c = '\t' then ['\\', 't']
  else if isPrintable c then [c]
  else escapeCode c.toNat

/-- One code point between two quotes `quote`. -/
def quotePoint (quote : Char) (code : Nat) : List Char :=
  if isSurrogate code then escapeCode code else quoteChar quote (Char.ofNat code)

/-- The quote that encloses a text. -/
def enclosingQuote (text : List Char) : Char :=
  if '\'' ∈ text ∧ '"' ∉ text then '"' else '\''

/-- A text as messages show it. -/
def quoted (text : String) : String :=
  let quote := enclosingQuote text.toList
  String.ofList (quote :: (points text).flatMap (quotePoint quote) ++ [quote])

end SteinerTrees.Text
