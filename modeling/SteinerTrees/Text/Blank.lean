/-! # Blanks, words and lines

What separates words, what may be trimmed from the ends of a text, and what ends a line. All three
go beyond ASCII. A carriage return followed by a line feed ends one line, and a text that ends with a
line end has no further empty line after it. -/

namespace SteinerTrees.Text

/-- Blanks separate words and are trimmed from the ends of a text. -/
def isBlank (c : Char) : Bool :=
  let n := c.toNat
  (0x09 ≤ n && n ≤ 0x0D) || (0x1C ≤ n && n ≤ 0x20) || n == 0x85 || n == 0xA0 || n == 0x1680 ||
    (0x2000 ≤ n && n ≤ 0x200A) || n == 0x2028 || n == 0x2029 || n == 0x202F || n == 0x205F || n == 0x3000

/-- Characters that end a line on their own. -/
def isLineEnd (c : Char) : Bool :=
  let n := c.toNat
  (0x0A ≤ n && n ≤ 0x0D) || (0x1C ≤ n && n ≤ 0x1E) || n == 0x85 || n == 0x2028 || n == 0x2029

/-- A text without the blanks at its two ends. -/
def trimChars (text : List Char) : List Char :=
  ((text.dropWhile isBlank).reverse.dropWhile isBlank).reverse

/-- A text without the blanks at its two ends. -/
def trim (text : String) : String := String.ofList (trimChars text.toList)

/-- `splitWords word rest` cuts `rest` at its blanks; `word` holds the current word, reversed. -/
def splitWords : List Char → List Char → List (List Char)
  | [], [] => []
  | word, [] => [word.reverse]
  | [], c :: rest => if isBlank c then splitWords [] rest else splitWords [c] rest
  | word, c :: rest => if isBlank c then word.reverse :: splitWords [] rest else splitWords (c :: word) rest

/-- The maximal runs of characters other than blanks. -/
def words (text : String) : List String := (splitWords [] text.toList).map String.ofList

/-- `splitLines line rest` cuts `rest` after its line ends; `line` holds the current line, reversed. -/
def splitLines : List Char → List Char → List (List Char)
  | [], [] => []
  | line, [] => [line.reverse]
  | line, '\r' :: '\n' :: rest => line.reverse :: splitLines [] rest
  | line, c :: rest => if isLineEnd c then line.reverse :: splitLines [] rest else splitLines (c :: line) rest

/-- The lines of a text, without their ends. -/
def lines (text : String) : List String := (splitLines [] text.toList).map String.ofList

/-- `\r\n` and a lone `\r` become `\n`. -/
def unifyLineEnds : List Char → List Char
  | [] => []
  | '\r' :: '\n' :: rest => '\n' :: unifyLineEnds rest
  | '\r' :: rest => '\n' :: unifyLineEnds rest
  | c :: rest => c :: unifyLineEnds rest

end SteinerTrees.Text
