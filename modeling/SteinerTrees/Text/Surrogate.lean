/-! # Code points

A text is a sequence of code points. Halves of surrogate pairs may stand in it on their own, and no character
stands for them. So a text is held in a string that marks them: the last of all characters is the mark, and a
character of a certain block after an odd number of marks stands for a surrogate. In front of the block every mark
that is meant is doubled, so each string holds one text and each text is held by one string. -/

namespace SteinerTrees.Text

/-- The halves of surrogate pairs. -/
def isSurrogate (code : Nat) : Bool := 0xD800 ≤ code && code ≤ 0xDFFF

def isHighSurrogate (code : Nat) : Bool := 0xD800 ≤ code && code ≤ 0xDBFF

def isLowSurrogate (code : Nat) : Bool := 0xDC00 ≤ code && code ≤ 0xDFFF

/-- The code point of the mark, which is the last of all. -/
def lastPoint : Nat := 0x10FFFF

def mark : Char := Char.ofNat lastPoint

/-- How far the block whose characters stand for surrogates lies behind the surrogates. -/
def shift : Nat := 0x800

/-- The code points of the block whose characters can stand for surrogates. -/
def isCarrier (code : Nat) : Bool := 0xE000 ≤ code && code < 0xE800

/-- The code points of a character, and of the `held` marks in front of it. -/
def pointsOf (held : Nat) (c : Char) : List Nat :=
  if isCarrier c.toNat then List.replicate (held / 2) lastPoint ++ [c.toNat - held % 2 * shift]
  else List.replicate held lastPoint ++ [c.toNat]

/-- The code points of characters behind `held` marks. -/
def pointsFrom : Nat → List Char → List Nat
  | held, [] => List.replicate held lastPoint
  | held, c :: rest =>
    if c = mark then pointsFrom (held + 1) rest else pointsOf held c ++ pointsFrom 0 rest

/-- The code points of a text. -/
def points (text : String) : List Nat := pointsFrom 0 text.toList

/-- The characters for a code point, and for `held` marks that are meant in front of it. -/
def charsOf (held code : Nat) : List Char :=
  if isCarrier code then List.replicate (2 * held) mark ++ [Char.ofNat code]
  else if isSurrogate code then List.replicate (2 * held + 1) mark ++ [Char.ofNat (code + shift)]
  else List.replicate held mark ++ [Char.ofNat code]

/-- The characters for code points behind `held` marks. -/
def charsFrom : Nat → List Nat → List Char
  | held, [] => List.replicate held mark
  | held, code :: rest =>
    if code = lastPoint then charsFrom (held + 1) rest else charsOf held code ++ charsFrom 0 rest

/-- The text of code points. -/
def ofPoints (points : List Nat) : String := String.ofList (charsFrom 0 points)

/-- The text of a string in which every character stands for itself. -/
def ofString (text : String) : String := ofPoints (text.toList.map (·.toNat))

/-- The string of a text in which every character stands for itself, as far as there are characters. -/
def plain (text : String) : String := String.ofList ((points text).map Char.ofNat)

/-- The order of lists by their first difference; the start of a list comes before the list. -/
def isAtMost : List Nat → List Nat → Bool
  | [], _ => true
  | _ :: _, [] => false
  | a :: as, b :: bs => a < b || (a == b && isAtMost as bs)

/-- The order of texts by their code points. -/
def precedes (a b : String) : Bool := isAtMost (points a) (points b)

end SteinerTrees.Text
