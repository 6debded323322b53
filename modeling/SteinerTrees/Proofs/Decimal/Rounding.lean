import Mathlib
import SteinerTrees.Decimal.Binary64

/-! # Rounding to 64 bits

Which number is nearest to a quotient depends on the quotient only, and not on how it is written: the unit is the binary
logarithm of the quotient, and rounding keeps under a common factor. A finite number is the nearest one to itself. -/

namespace SteinerTrees.Binary64

variable {negative : Bool} {num den k : Nat} {power : Int} {x : Binary64}

/-! ## Half to even -/

theorem roundHalfEven_mul (positive : 0 < k) (num den : Nat) :
    roundHalfEven (k * num) (k * den) = roundHalfEven num den := by
  have twice : 2 * (k * (num % den)) = k * (2 * (num % den)) := by ring
  simp only [roundHalfEven, Nat.mul_div_mul_left _ _ positive, Nat.mul_mod_mul_left, twice,
    Nat.mul_lt_mul_left positive]

/-- A natural number is rounded to itself. -/
theorem roundHalfEven_of_mul (positive : 0 < den) (n : Nat) : roundHalfEven (n * den) den = n := by
  rw [roundHalfEven, Nat.mul_div_cancel n positive, Nat.mul_mod_left]
  exact if_pos positive

theorem inUnits_mul (positive : 0 < k) (num den : Nat) (power : Int) :
    inUnits (k * num) (k * den) power = inUnits num den power := by
  rw [inUnits, inUnits, Nat.mul_assoc, Nat.mul_assoc, roundHalfEven_mul positive]

/-! ## The unit -/

/-- A power of two against a quotient, in natural numbers. -/
theorem zpow_le_div_iff (positive : 0 < den) (i j : Nat) :
    (2 : ℚ) ^ ((i : Int) - j) ≤ (num : ℚ) / den ↔ den * 2 ^ i ≤ num * 2 ^ j := by
  have den_pos : (0 : ℚ) < den := by exact_mod_cast positive
  have two_pos : (0 : ℚ) < 2 ^ j := by positivity
  rw [zpow_sub₀ two_ne_zero, zpow_natCast, zpow_natCast, div_le_div_iff₀ two_pos den_pos, mul_comm]
  exact_mod_cast Iff.rfl

/-- The binary logarithm of a quotient against an exponent, in natural numbers. -/
theorem le_log_iff (num_pos : 0 < num) (den_pos : 0 < den) (i j : Nat) :
    (i : Int) - j ≤ Int.log 2 ((num : ℚ) / den) ↔ den * 2 ^ i ≤ num * 2 ^ j := by
  have quotient_pos : (0 : ℚ) < (num : ℚ) / den := by positivity
  rw [← zpow_le_div_iff den_pos, ← Int.zpow_le_iff_le_log (by decide) quotient_pos]
  rfl

/-- The unit of a quotient has 52 binary digits behind its leading one, unless the quotient is too small for that. -/
theorem unitPower_eq (num_pos : 0 < num) (den_pos : 0 < den) :
    unitPower num den = max (Int.log 2 ((num : ℚ) / den) - 52) (-1074) := by
  have num_low := Nat.log2_self_le num_pos.ne'
  have num_high := Nat.lt_log2_self (n := num)
  have den_low := Nat.log2_self_le den_pos.ne'
  have den_high := Nat.lt_log2_self (n := den)
  -- the logarithm of the quotient is the difference of the two logarithms, or one less
  have low := (le_log_iff num_pos den_pos num.log2 (den.log2 + 1)).mpr (by
    rw [Nat.mul_comm]
    exact Nat.mul_le_mul num_low den_high.le)
  have high := mt (le_log_iff num_pos den_pos (num.log2 + 1) den.log2).mp (by
    rw [Nat.not_le, Nat.mul_comm den]
    exact Nat.mul_lt_mul_of_lt_of_le num_high den_low den_pos)
  have fits := le_log_iff num_pos den_pos (52 + ((num.log2 : Int) - den.log2 - 52).toNat)
    (-((num.log2 : Int) - den.log2 - 52)).toNat
  unfold unitPower
  simp only [Nat.pow_eq, ← fits, decide_eq_true_eq]
  split_ifs <;> omega

theorem unitPower_mul (positive : 0 < k) (num_pos : 0 < num) (den_pos : 0 < den) :
    unitPower (k * num) (k * den) = unitPower num den := by
  have k_ne : (k : ℚ) ≠ 0 := by exact_mod_cast positive.ne'
  rw [unitPower_eq (Nat.mul_pos positive num_pos) (Nat.mul_pos positive den_pos), unitPower_eq num_pos den_pos,
    Nat.cast_mul, Nat.cast_mul, mul_div_mul_left _ _ k_ne]

theorem ofRatio_zero (den : Nat) : ofRatio negative 0 den = ofCode negative 0 := if_pos rfl

/-- A common factor changes nothing. -/
theorem ofRatio_mul (positive : 0 < k) (den_pos : 0 < den) (num : Nat) :
    ofRatio negative (k * num) (k * den) = ofRatio negative num den := by
  rcases Nat.eq_zero_or_pos num with rfl | num_pos
  · rw [Nat.mul_zero, ofRatio_zero, ofRatio_zero]
  · rw [ofRatio, ofRatio, if_neg (Nat.mul_pos positive num_pos).ne', if_neg num_pos.ne',
      unitPower_mul positive num_pos den_pos]
    simp only [inUnits_mul positive]

/-! ## Numbers themselves -/

theorem eq_infinity (infinite : x.isInfinite = true) : x = infinity x.negative := by
  obtain ⟨negative, exponent, fraction⟩ := x
  rw [isInfinite, Bool.and_eq_true, beq_iff_eq, beq_iff_eq] at infinite
  rw [infinity, mk.injEq]
  exact ⟨rfl, Fin.ext infinite.1, Fin.ext infinite.2⟩

theorem isFinite_of_not (ordered : ¬ x.isNaN = true) (bounded : ¬ x.isInfinite = true) : x.isFinite = true := by
  have exponent_lt := x.exponent.isLt
  simp only [isNaN, isInfinite, reserved, Bool.and_eq_true, beq_iff_eq, bne_iff_ne] at ordered bounded
  refine decide_eq_true ?_
  rw [reserved]
  omega

theorem exponent_lt (finite : x.isFinite = true) : x.exponent.val < 2047 := of_decide_eq_true finite

/-- The fields of a finite number, read as one number, give it back. -/
theorem ofCode_fields (finite : x.isFinite = true) :
    ofCode x.negative (x.exponent.val * fractionLimit + x.fraction.val) = x := by
  obtain ⟨negative, exponent, fraction⟩ := x
  have exponent_lt : exponent.val < 2047 := exponent_lt finite
  have fraction_lt := fraction.isLt
  have below : exponent.val * fractionLimit + fraction.val < reserved * fractionLimit := by
    unfold reserved fractionLimit
    omega
  have first : (exponent.val * fractionLimit + fraction.val) / fractionLimit = exponent.val := by
    unfold fractionLimit
    omega
  have second : (exponent.val * fractionLimit + fraction.val) % fractionLimit = fraction.val := by
    unfold fractionLimit
    omega
  rw [ofCode, if_pos below, first, second]
  simp

/-- The significand of a normal number has a leading digit in front of its fraction, that of others has none. -/
theorem significand_cases (x : Binary64) :
    x.exponent.val = 0 ∧ x.significand = x.fraction.val ∧ x.power = -1074 ∨
    0 < x.exponent.val ∧ x.significand = 4503599627370496 + x.fraction.val ∧ x.power = x.exponent.val - 1075 := by
  unfold significand power fractionLimit
  split <;> omega

theorem denominator_pos (x : Binary64) : 0 < x.denominator := Nat.two_pow_pos _

theorem numerator_pos (nonzero : 0 < x.significand) : 0 < x.numerator := Nat.mul_pos nonzero (Nat.two_pow_pos _)

/-- The binary logarithm of a finite number is that of its significand, shifted by its power. -/
theorem le_log_self_iff (nonzero : 0 < x.significand) (i : Nat) :
    (i : Int) + x.power ≤ Int.log 2 ((x.numerator : ℚ) / x.denominator) ↔ 2 ^ i ≤ x.significand := by
  have split : (i : Int) + x.power = ((i + x.power.toNat : Nat) : Int) - (-x.power).toNat := by omega
  have factor : 0 < 2 ^ x.power.toNat * 2 ^ (-x.power).toNat := Nat.mul_pos (Nat.two_pow_pos _) (Nat.two_pow_pos _)
  have left : 2 ^ (-x.power).toNat * 2 ^ (i + x.power.toNat) =
      2 ^ i * (2 ^ x.power.toNat * 2 ^ (-x.power).toNat) := by ring
  rw [split, le_log_iff (numerator_pos nonzero) (denominator_pos x), numerator, denominator, Nat.pow_eq, Nat.pow_eq,
    left, Nat.mul_assoc, Nat.mul_le_mul_right_iff factor]

/-- The unit of a number is its own. -/
theorem unitPower_self (nonzero : 0 < x.significand) : unitPower x.numerator x.denominator = x.power := by
  have high := le_log_self_iff nonzero 53
  have low := le_log_self_iff nonzero 52
  rw [unitPower_eq (numerator_pos nonzero) (denominator_pos x)]
  have fraction_lt := x.fraction.isLt
  rcases significand_cases x with ⟨_, _, _⟩ | ⟨_, _, _⟩ <;> omega

theorem inUnits_self (x : Binary64) : inUnits x.numerator x.denominator x.power = x.significand := by
  have factor : 0 < 2 ^ (-x.power).toNat * 2 ^ x.power.toNat := Nat.mul_pos (Nat.two_pow_pos _) (Nat.two_pow_pos _)
  rw [inUnits, numerator, denominator, Nat.pow_eq, Nat.pow_eq, Nat.mul_assoc, Nat.mul_comm (2 ^ x.power.toNat),
    roundHalfEven_of_mul factor]

/-- A finite number is the nearest one to itself. -/
theorem ofRatio_self (finite : x.isFinite = true) : ofRatio x.negative x.numerator x.denominator = x := by
  have fields := ofCode_fields finite
  rcases Nat.eq_zero_or_pos x.significand with zero | nonzero
  · have code : x.exponent.val * fractionLimit + x.fraction.val = 0 := by
      unfold fractionLimit
      rcases significand_cases x with ⟨_, _, _⟩ | ⟨_, _, _⟩ <;> omega
    rw [numerator, zero, Nat.zero_mul, ofRatio_zero, ← code, fields]
  · have code : (x.power + 1074).toNat * fractionLimit + x.significand =
        x.exponent.val * fractionLimit + x.fraction.val := by
      unfold fractionLimit
      rcases significand_cases x with ⟨_, _, _⟩ | ⟨_, _, _⟩ <;> omega
    rw [ofRatio, if_neg (numerator_pos nonzero).ne', unitPower_self nonzero]
    simp only
    rw [inUnits_self, code, fields]

end SteinerTrees.Binary64
