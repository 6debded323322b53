import Mathlib.Data.List.Induction
import Mathlib.Tactic.Ring
import SteinerTrees.Json.Reader

/-! # Decimal digits

The digits of a natural number are read back as the number, and nothing is lost on the way: the run ends where the
digits end, and it starts with a zero for zero only. -/

namespace SteinerTrees

namespace Decimal

variable {n k : Nat}

/-- The values of a text of digits. -/
def values (text : List Char) : List Nat := text.map (·.toNat - 48)

theorem values_append (a b : List Char) : values (a ++ b) = values a ++ values b := List.map_append

theorem ofDigits_append_singleton (a : List Nat) (d : Nat) : ofDigits (a ++ [d]) = 10 * ofDigits a + d := by
  rw [ofDigits, List.foldl_append]
  rfl

theorem ofDigits_append (a b : List Nat) : ofDigits (a ++ b) = ofDigits a * 10 ^ b.length + ofDigits b := by
  induction b using List.reverseRecOn with
  | nil => simp [ofDigits]
  | append_singleton b d ih =>
    rw [← List.append_assoc, ofDigits_append_singleton, ofDigits_append_singleton, ih, List.length_append,
      List.length_singleton, Nat.pow_succ]
    ring

/-- Zeros in front of digits change nothing. -/
theorem ofDigits_zeros_append (k : Nat) (a : List Nat) : ofDigits (List.replicate k 0 ++ a) = ofDigits a := by
  induction k with
  | zero => rfl
  | succ k ih => exact ih

theorem values_zeros (k : Nat) : values (List.replicate k '0') = List.replicate k 0 := List.map_replicate

/-- The digits of a number stand for it. -/
theorem ofDigits_toDigits (n : Nat) : ofDigits (values (Nat.toDigits 10 n)) = n := by
  induction n using Nat.strongRecOn with
  | ind n ih =>
    rw [Nat.toDigits_eq_if (by decide)]
    split
    next small =>
      have value := Nat.toNat_digitChar_sub_48_of_lt_ten small
      simp only [values, List.map_cons, List.map_nil, value, ofDigits, List.foldl_cons, List.foldl_nil]
      omega
    next large =>
      have value := Nat.toNat_digitChar_sub_48_of_lt_ten (Nat.mod_lt n (by decide : 0 < 10))
      rw [values_append, values, values, List.map_singleton, value, ofDigits_append_singleton, ← values,
        ih (n / 10) (by omega)]
      omega

theorem isDigit_of_mem (c : Char) (member : c ∈ Nat.toDigits 10 n) : c.isDigit = true :=
  Nat.isDigit_of_mem_toDigits (by decide) (by decide) member

/-- The first digit of a number is zero for zero only. -/
theorem head?_toDigits (positive : 0 < n) : (Nat.toDigits 10 n).head? ≠ some '0' := by
  induction n using Nat.strongRecOn with
  | ind n ih =>
    rw [Nat.toDigits_eq_if (by decide)]
    split
    next small =>
      rw [List.head?_singleton, Ne, Option.some.injEq, Nat.digitChar_eq_zero]
      omega
    next large =>
      have front := ih (n / 10) (by omega) (by omega)
      obtain ⟨first, rest, same⟩ := List.exists_cons_of_ne_nil (Nat.toDigits_ne_nil (n := n / 10) (b := 10))
      rwa [same] at front ⊢

/-! ## Width -/

theorem width_pos (n : Nat) : 0 < width n := Nat.length_toDigits_pos

theorem width_le_iff (positive : 0 < k) : width n ≤ k ↔ n < 10 ^ k := Nat.length_toDigits_le_iff (by decide) positive

theorem isWritable_iff {i : Int} : isWritable i = true ↔ i.natAbs < 10 ^ digitLimit := by
  rw [isWritable, decide_eq_true_eq, width_le_iff (by decide)]

theorem lt_width (low : 10 ^ k ≤ n) : k < width n := by
  rcases Nat.eq_zero_or_pos k with rfl | positive
  · exact width_pos n
  · exact Nat.lt_of_not_le fun short => Nat.not_lt_of_le low ((width_le_iff positive).mp short)

theorem width_mul_ten (positive : 0 < n) : width (10 * n) = width n + 1 := by
  rw [width, Nat.toDigits_of_base_le (by decide) (by omega), List.length_append, Nat.mul_div_cancel_left n (by decide)]
  rfl

end Decimal

namespace Json

variable {run rest : List Char} {n : Nat}

/-- What follows a run of digits is no digit. -/
def Ends (rest : List Char) : Prop := ∀ c ∈ rest.head?, c.isDigit = false

theorem takeWhile_isDigit (run_digits : ∀ c ∈ run, c.isDigit = true) (ends : Ends rest) :
    (run ++ rest).takeWhile Char.isDigit = run := by
  rw [List.takeWhile_append_of_pos run_digits]
  cases rest with
  | nil => simp
  | cons c rest => rw [List.takeWhile_cons_of_neg (by simp [ends c rfl]), List.append_nil]

/-- A run of digits is read up to its end. -/
theorem digits_append (run_digits : ∀ c ∈ run, c.isDigit = true) (ends : Ends rest) :
    digits (run ++ rest) = (Decimal.values run, rest) := by
  rw [digits, takeWhile_isDigit run_digits ends, List.drop_left]
  rfl

/-- Digits that can stand in front of a point: a zero stands there on its own only. -/
structure Whole (run : List Char) : Prop where
  run_digits : ∀ c ∈ run, c.isDigit = true
  nonempty : run ≠ []
  zero_alone : run.head? = some '0' → run = ['0']

theorem Whole.toDigits (n : Nat) : Whole (Nat.toDigits 10 n) where
  run_digits := Decimal.isDigit_of_mem
  nonempty := Nat.toDigits_ne_nil
  zero_alone zero := by
    rcases Nat.eq_zero_or_pos n with rfl | positive
    · exact Nat.toDigits_zero 10
    · exact absurd zero (Decimal.head?_toDigits positive)

/-- The whole part of a number is read up to its end. -/
theorem Whole.readWhole (whole : Whole run) (ends : Ends rest) :
    readWhole (run ++ rest) = some (Decimal.values run, rest) := by
  have found := digits_append whole.run_digits ends
  obtain ⟨first, others, rfl⟩ := List.exists_cons_of_ne_nil whole.nonempty
  by_cases zero : first = '0'
  · subst zero
    cases whole.zero_alone rfl
    rfl
  · rw [Json.readWhole.eq_2 _ (by rintro _ ⟨⟩; exact zero rfl), found]
    rfl

end Json

end SteinerTrees
