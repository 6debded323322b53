import SteinerTrees.Decimal.Binary64

/-! # The shortest decimal that reads back

A finite number is written with the fewest significant digits that determine it. On the grid of
decimals with a given number of digits, only the two neighbours of the value can be the nearest to it,
so these two are tried for one digit, for two, and so on; of two that read back the nearer is taken, and
of two that are equally near the one whose last digit is even.
Exponents from `-4` to `15` are written positionally and always with a point, the others with an
exponent of at least two digits. -/

namespace SteinerTrees

/-- The decimal `digits · 10 ^ scale`. -/
structure Decimal where
  digits : Nat
  scale : Int
  deriving DecidableEq, Repr

namespace Decimal

/-- How many decimal digits a natural number has; zero has one. -/
def width (n : Nat) : Nat := (Nat.toDigits 10 n).length

/-- Whole numbers of more digits than this are neither read nor written. -/
def digitLimit : Nat := 4300

/-- Whether a whole number can be written. -/
def isWritable (n : Int) : Bool := width n.natAbs ≤ digitLimit

/-- The number nearest to a decimal. -/
def nearest (negative : Bool) (d : Decimal) : Binary64 := .ofDecimal negative d.digits d.scale (width d.digits)

/-- The exponent of the leading decimal digit of a positive quotient. -/
def leadingExponent (num den : Nat) : Int :=
  if den ≤ num then (width (num / den) : Int) - 1
  else
    let below := width (den / num)
    if den ≤ num * Nat.pow 10 (below - 1) then -((below - 1 : Nat) : Int) else -(below : Int)

/-- The magnitude of a finite number, exactly. -/
def exact (x : Binary64) : Decimal :=
  ⟨x.significand * Nat.pow 2 x.power.toNat * Nat.pow 5 (-x.power).toNat, -((-x.power).toNat : Int)⟩

/-- Whether a remainder leaves a value nearer to the lower of its neighbours, or a half goes to it. -/
def lowerWins (remainder den lowerDigits : Nat) : Bool :=
  2 * remainder < den || (2 * remainder == den && lowerDigits % 2 == 0)

/-- The neighbour of a magnitude on the grid with `count` significant digits that reads back, if one
does; of two, the nearer one. -/
def onGrid? (x : Binary64) (leading : Int) (count : Nat) : Option Decimal :=
  let scale := leading - count + 1
  let num := x.numerator * Nat.pow 10 (-scale).toNat
  let den := x.denominator * Nat.pow 10 scale.toNat
  let lower : Decimal := ⟨num / den, scale⟩
  let upper : Decimal := ⟨num / den + 1, scale⟩
  match lower.nearest x.negative == x, upper.nearest x.negative == x with
  | true, true => some (if lowerWins (num % den) den lower.digits then lower else upper)
  | true, false => some lower
  | false, true => some upper
  | false, false => none

/-- The first of the grids with `count`, `count + 1`, … digits that holds a decimal reading back. -/
def firstOnGrid (x : Binary64) (leading : Int) : Nat → Nat → Decimal
  | 0, _ => exact x
  | tries + 1, count => (onGrid? x leading count).getD (firstOnGrid x leading tries (count + 1))

/-- The shortest decimal that reads back as the magnitude of a finite number. -/
def shortest (x : Binary64) : Decimal :=
  if x.isZero then ⟨0, 0⟩
  else firstOnGrid x (leadingExponent x.numerator x.denominator) 17 1

/-- A decimal without the zeros at the end of its digits. -/
def normalize : Nat → Decimal → Decimal
  | 0, d => d
  | fuel + 1, d => if d.digits ≠ 0 ∧ d.digits % 10 = 0 then normalize fuel ⟨d.digits / 10, d.scale + 1⟩ else d

/-- The digits of a decimal with a point in front of the digit of exponent `-1`. -/
def positional (digits : List Char) (leading : Int) : List Char :=
  if leading < 0 then "0.".toList ++ List.replicate (-leading - 1).toNat '0' ++ digits
  else
    let whole := digits.take (leading.toNat + 1)
    let part := digits.drop (leading.toNat + 1)
    whole ++ List.replicate (leading.toNat + 1 - whole.length) '0' ++ '.' :: (if part.isEmpty then ['0'] else part)

/-- The digits of a decimal with the point after the first and the exponent behind. -/
def scientific (digits : List Char) (leading : Int) : List Char :=
  let mantissa := match digits with
    | first :: second :: rest => first :: '.' :: second :: rest
    | short => short
  let exponent := Nat.toDigits 10 leading.natAbs
  mantissa ++ 'e' :: (if leading < 0 then '-' else '+') ::
    ((if exponent.length < 2 then ['0'] else []) ++ exponent)

/-- Exponents written positionally. -/
def isPositional (leading : Int) : Bool := -4 ≤ leading && leading < 16

/-- The text of a decimal magnitude. -/
def render (d : Decimal) : List Char :=
  let d := d.normalize 400
  let digits := Nat.toDigits 10 d.digits
  let leading := d.scale + digits.length - 1
  if d.digits = 0 then "0.0".toList
  else if isPositional leading then positional digits leading
  else scientific digits leading

end Decimal

/-- The text of a number. Infinities and what is not a number are named by `infinite` and `nan`. -/
def Binary64.render (infinite nan : String) (x : Binary64) : String :=
  if x.isNaN then nan
  else
    let magnitude := if x.isInfinite then infinite else String.ofList (Decimal.shortest x).render
    if x.negative then "-" ++ magnitude else magnitude

/-- The text of a number inside messages. -/
def Binary64.shown (x : Binary64) : String := x.render "inf" "nan"

namespace Decimal

/-- A quotient with exactly one digit after the point, a half going to the even digit. -/
def fixedOne (num den : Nat) : String :=
  let tenths := Binary64.roundHalfEven (num * 10) den
  s!"{tenths / 10}.{tenths % 10}"

end Decimal

/-- The text of a number with one digit after the point. -/
def Binary64.renderFixedOne (x : Binary64) : String :=
  if x.isNaN then "nan"
  else
    let magnitude := if x.isInfinite then "inf" else Decimal.fixedOne x.numerator x.denominator
    if x.negative then "-" ++ magnitude else magnitude

end SteinerTrees
