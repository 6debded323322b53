/-! # Binary floating-point numbers of 64 bits

A number is its three fields: sign, exponent and fraction. A finite number is the exact value
`significand · 2 ^ power`, with its sign, and a quotient of natural numbers is rounded to the nearest
such value, a half going to the even significand. Every operation is exact arithmetic on natural
numbers, so each can be reasoned about. -/

namespace SteinerTrees

/-- The sign, exponent and fraction fields of a number. -/
structure Binary64 where
  negative : Bool
  exponent : Fin 2048
  fraction : Fin 4503599627370496
  deriving DecidableEq, Repr

namespace Binary64

/-- The weight of the exponent field, `2 ^ 52`. -/
def fractionLimit : Nat := 4503599627370496

/-- The exponent field that is reserved for infinities and for what is not a number. -/
def reserved : Nat := 2047

def isFinite (x : Binary64) : Bool := x.exponent.val < reserved

def isNaN (x : Binary64) : Bool := x.exponent.val == reserved && x.fraction.val != 0

def isInfinite (x : Binary64) : Bool := x.exponent.val == reserved && x.fraction.val == 0

def infinity (negative : Bool) : Binary64 := ⟨negative, 2047, 0⟩

def nan : Binary64 := ⟨false, 2047, 2251799813685248⟩

/-- The number whose exponent and fraction fields, read as one number, are `code`; past the largest
finite number there is only infinity. -/
def ofCode (negative : Bool) (code : Nat) : Binary64 :=
  if code < reserved * fractionLimit then
    ⟨negative, Fin.ofNat 2048 (code / fractionLimit), Fin.ofNat 4503599627370496 (code % fractionLimit)⟩
  else infinity negative

/-- A finite number is `significand · 2 ^ power`. -/
def significand (x : Binary64) : Nat :=
  if x.exponent.val = 0 then x.fraction.val else fractionLimit + x.fraction.val

def power (x : Binary64) : Int := (max x.exponent.val 1 : Nat) - 1075

/-- The magnitude of a finite number as a quotient. -/
def numerator (x : Binary64) : Nat := x.significand * Nat.pow 2 x.power.toNat

def denominator (x : Binary64) : Nat := Nat.pow 2 (-x.power).toNat

def isZero (x : Binary64) : Bool := x.exponent.val == 0 && x.fraction.val == 0

/-- A quotient rounded to the nearest natural number, a half going to the even neighbour. -/
def roundHalfEven (num den : Nat) : Nat :=
  let q := num / den
  let twice := 2 * (num % den)
  if twice < den then q
  else if den < twice then q + 1
  else if q % 2 = 0 then q else q + 1

/-- A quotient in units of `2 ^ power`, rounded. -/
def inUnits (num den : Nat) (power : Int) : Nat :=
  roundHalfEven (num * Nat.pow 2 (-power).toNat) (den * Nat.pow 2 power.toNat)

/-- The power of two whose multiples are the candidates for a positive quotient: the quotient has
53 binary digits before the point in units of it, unless it is too small for that. -/
def unitPower (num den : Nat) : Int :=
  let guess : Int := (Nat.log2 num : Int) - Nat.log2 den - 52
  let fits : Bool := den * Nat.pow 2 (52 + guess.toNat) ≤ num * Nat.pow 2 (-guess).toNat
  max (if fits then guess else guess - 1) (-1074)

/-- The number nearest to a quotient. -/
def ofRatio (negative : Bool) (num den : Nat) : Binary64 :=
  if num = 0 then ofCode negative 0
  else
    let power := unitPower num den
    ofCode negative ((power + 1074).toNat * fractionLimit + inUnits num den power)

/-- The number nearest to `digits · 10 ^ scale`, where `digits` has `width` decimal digits. A scale far
outside the range is decided without computing the power. -/
def ofDecimal (negative : Bool) (digits : Nat) (scale : Int) (width : Nat) : Binary64 :=
  if digits = 0 ∨ scale + width < -400 then ofCode negative 0
  else if 400 < scale + width then infinity negative
  else ofRatio negative (digits * Nat.pow 10 scale.toNat) (Nat.pow 10 (-scale).toNat)

/-- The number nearest to an integer. -/
def ofInt (n : Int) : Binary64 := ofRatio (n < 0) n.natAbs 1

/-- The integer a finite number is equal to, if it is one. -/
def toInt? (x : Binary64) : Option Int :=
  if x.isFinite ∧ x.numerator % x.denominator = 0 then
    let magnitude : Int := (x.numerator / x.denominator : Nat)
    some (if x.negative then -magnitude else magnitude)
  else none

/-- A number plus an integer, rounded. -/
def addInt (x : Binary64) (n : Int) : Binary64 :=
  if x.isFinite then
    let sum : Int := (if x.negative then -(x.numerator : Int) else x.numerator) + n * x.denominator
    ofRatio (sum < 0) sum.natAbs x.denominator
  else x

end Binary64

end SteinerTrees
