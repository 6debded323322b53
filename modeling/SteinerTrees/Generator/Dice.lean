import SteinerTrees.Value.Basic

/-! # Dice

Randomness is a sequence of throws that is given from outside: what is generated is a function of it, so
every statement about generated instances holds for every sequence. A throw is a number below `sides`.
One sequence is fixed by each seed. -/

namespace SteinerTrees

/-- A sequence of throws. -/
abbrev Dice := Nat → Nat

namespace Dice

def sides : Nat := Nat.pow 2 53

/-- Mixes the bits of a word, so that words next to each other give unrelated results. -/
def mix (word : UInt64) : UInt64 :=
  let word := (word ^^^ (word >>> 30)) * 0xBF58476D1CE4E5B9
  let word := (word ^^^ (word >>> 27)) * 0x94D049BB133111EB
  word ^^^ (word >>> 31)

/-- The word that a seed stands for. -/
def seedWord (seed : Value) : UInt64 :=
  seed.shown.toList.foldl (fun word c => word * 31 + c.toNat.toUInt64) 7

/-- The throws of a seed. -/
def ofSeed (seed : Value) : Dice := fun throw =>
  (mix (seedWord seed + (throw + 1).toUInt64 * 0x9E3779B97F4A7C15)).toNat % sides

/-- Draws `count` members of a list, each at most once, from the throw with a given number on. -/
def sample {α : Type} (dice : Dice) : Nat → Nat → List α → List α
  | 0, _, _ => []
  | count + 1, throw, members =>
    let position := dice throw % members.length
    match members[position]? with
    | some member => member :: sample dice count (throw + 1) (members.eraseIdx position)
    | none => []

end Dice

end SteinerTrees
