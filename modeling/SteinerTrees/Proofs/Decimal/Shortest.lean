import SteinerTrees.Proofs.Decimal.Digits
import SteinerTrees.Proofs.Decimal.Rounding

/-! # Decimals that read back

A decimal stands for the same number with or without zeros at its end. The shortest decimal of a finite number reads
back as the number: those on the grids were tried, and where none of them was found there is the exact one. -/

namespace SteinerTrees.Decimal

variable {negative : Bool} {n k : Nat} {scale : Int} {d : Decimal} {x : Binary64}

/-! ## Zeros at the end -/

theorem nearest_zero (scale : Int) : nearest negative ⟨0, scale⟩ = .ofCode negative 0 := by
  rw [nearest, Binary64.ofDecimal, if_pos (Or.inl rfl)]

theorem nearest_mul_ten (n : Nat) (scale : Int) :
    nearest negative ⟨10 * n, scale⟩ = nearest negative ⟨n, scale + 1⟩ := by
  rcases Nat.eq_zero_or_pos n with rfl | positive
  · rw [Nat.mul_zero, nearest_zero, nearest_zero]
  · have extent : scale + (width (10 * n) : Nat) = scale + 1 + (width n : Nat) := by
      rw [width_mul_ten positive]
      omega
    have ratio : Binary64.ofRatio negative (10 * n * Nat.pow 10 scale.toNat) (Nat.pow 10 (-scale).toNat) =
        .ofRatio negative (n * Nat.pow 10 (scale + 1).toNat) (Nat.pow 10 (-(scale + 1)).toNat) := by
      rw [Nat.pow_eq, Nat.pow_eq, Nat.pow_eq, Nat.pow_eq]
      rcases lt_or_ge scale 0 with below | above
      · have down : (-scale).toNat = (-(scale + 1)).toNat + 1 := by omega
        rw [down, Int.toNat_of_nonpos below.le, Int.toNat_of_nonpos (by omega : scale + 1 ≤ 0), Nat.pow_zero,
          Nat.mul_one, Nat.mul_one, Nat.pow_succ', Binary64.ofRatio_mul (by decide) (Nat.pow_pos (by decide))]
      · have up : (scale + 1).toNat = scale.toNat + 1 := by omega
        have level : (-scale).toNat = (-(scale + 1)).toNat := by omega
        rw [up, level, Nat.pow_succ']
        congr 1
        ring
    have nonzero : 10 * n = 0 ↔ n = 0 := by omega
    simp only [nearest, Binary64.ofDecimal, extent, ratio, nonzero]

/-- Zeros at the end of the digits make up for a lower scale. -/
theorem nearest_shift (negative : Bool) (n k : Nat) (scale : Int) :
    nearest negative ⟨n * 10 ^ k, scale - k⟩ = nearest negative ⟨n, scale⟩ := by
  induction k generalizing scale with
  | zero => rw [Nat.pow_zero, Nat.mul_one, Int.natCast_zero, Int.sub_zero]
  | succ k ih =>
    have up : scale - (k + 1 : Nat) + 1 = scale - k := by omega
    rw [Nat.pow_succ', Nat.mul_left_comm, nearest_mul_ten, up, ih]

theorem nearest_normalize (fuel : Nat) (d : Decimal) : (d.normalize fuel).nearest negative = d.nearest negative := by
  induction fuel generalizing d with
  | zero => rfl
  | succ fuel ih =>
    rw [normalize]
    split
    next divisible =>
      have whole : 10 * (d.digits / 10) = d.digits := Nat.mul_div_cancel' (Nat.dvd_of_mod_eq_zero divisible.2)
      rw [ih, ← nearest_mul_ten, whole]
    next => rfl

/-! ## The exact decimal -/

theorem ten_pow_le {m k : Nat} (small : k ≤ 2 * m) : 10 ^ k ≤ 5 ^ (m + k) := calc
  10 ^ k = 2 ^ k * 5 ^ k := Nat.mul_pow 2 5 k
  _ ≤ 2 ^ (2 * m) * 5 ^ k := Nat.mul_le_mul_right _ (Nat.pow_le_pow_right (by decide) small)
  _ = (2 ^ 2) ^ m * 5 ^ k := by rw [Nat.pow_mul]
  _ ≤ 5 ^ m * 5 ^ k := Nat.mul_le_mul_right _ (Nat.pow_le_pow_left (by decide) m)
  _ = 5 ^ (m + k) := (Nat.pow_add 5 m k).symm

theorem two_mul_five_pow_le {m i j : Nat} (small : i ≤ 3 * m) : 2 ^ i * 5 ^ j ≤ 10 ^ (m + j) := calc
  2 ^ i * 5 ^ j ≤ 2 ^ (3 * m) * 5 ^ j := Nat.mul_le_mul_right _ (Nat.pow_le_pow_right (by decide) small)
  _ = (2 ^ 3) ^ m * 5 ^ j := by rw [Nat.pow_mul]
  _ ≤ 10 ^ m * 10 ^ j := Nat.mul_le_mul (Nat.pow_le_pow_left (by decide) m) (Nat.pow_le_pow_left (by decide) j)
  _ = 10 ^ (m + j) := (Nat.pow_add 10 m j).symm

/-- The exact decimal of a number is far from both bounds at which the scale decides alone. -/
theorem exact_extent (finite : x.isFinite = true) (nonzero : 0 < x.significand) :
    -400 ≤ (exact x).scale + (width (exact x).digits : Nat) ∧
      (exact x).scale + (width (exact x).digits : Nat) ≤ 400 := by
  have exponent_lt := Binary64.exponent_lt finite
  have fraction_lt := x.fraction.isLt
  have cases := Binary64.significand_cases x
  have significand_lt : x.significand < 2 ^ 53 := by omega
  have up_le : x.power.toNat ≤ 971 := by omega
  have down_le : (-x.power).toNat ≤ 1074 := by omega
  simp only [exact, Nat.pow_eq]
  generalize x.power.toNat = up at up_le ⊢
  generalize (-x.power).toNat = down at down_le ⊢
  constructor
  · rcases Nat.le_total down 400 with near | far
    · omega
    · obtain ⟨k, rfl⟩ := Nat.exists_eq_add_of_le far
      have low : 10 ^ k ≤ x.significand * 2 ^ up * 5 ^ (400 + k) := (ten_pow_le (by omega)).trans
        (Nat.le_mul_of_pos_left _ (Nat.mul_pos nonzero (Nat.two_pow_pos up)))
      have wide := lt_width low
      omega
  · have high : x.significand * 2 ^ up * 5 ^ down < 10 ^ (400 + down) := calc
      x.significand * 2 ^ up * 5 ^ down < 2 ^ 53 * 2 ^ up * 5 ^ down :=
        Nat.mul_lt_mul_of_pos_right (Nat.mul_lt_mul_of_pos_right significand_lt (Nat.two_pow_pos up))
          (Nat.pow_pos (by decide))
      _ = 2 ^ (53 + up) * 5 ^ down := by rw [Nat.pow_add]
      _ ≤ 10 ^ (400 + down) := two_mul_five_pow_le (by omega)
    have narrow := (width_le_iff (by omega)).mpr high
    omega

theorem nearest_exact (finite : x.isFinite = true) (nonzero : 0 < x.significand) :
    (exact x).nearest x.negative = x := by
  obtain ⟨low, high⟩ := exact_extent finite nonzero
  have digits_ne : (exact x).digits ≠ 0 :=
    (Nat.mul_pos (Nat.mul_pos nonzero (Nat.two_pow_pos _)) (Nat.pow_pos (by decide))).ne'
  have five_pos : 0 < 5 ^ (-x.power).toNat := Nat.pow_pos (by decide)
  have scale : (exact x).scale = -((-x.power).toNat : Int) := rfl
  have up : (exact x).scale.toNat = 0 := by omega
  have down : (-(exact x).scale).toNat = (-x.power).toNat := by omega
  have num : (exact x).digits * Nat.pow 10 (exact x).scale.toNat = 5 ^ (-x.power).toNat * x.numerator := by
    rw [up, Nat.pow_eq, Nat.pow_zero, Nat.mul_one, exact, Binary64.numerator, Nat.mul_comm]
    rfl
  have den : Nat.pow 10 (-(exact x).scale).toNat = 5 ^ (-x.power).toNat * x.denominator := by
    rw [down, Nat.pow_eq, Binary64.denominator, Nat.pow_eq, ← Nat.mul_pow]
  rw [nearest, Binary64.ofDecimal, if_neg (by omega), if_neg (by omega), num, den,
    Binary64.ofRatio_mul five_pos x.denominator_pos, Binary64.ofRatio_self finite]

/-! ## The shortest decimal -/

/-- A decimal that was found on a grid was tried. -/
theorem nearest_of_onGrid? {leading : Int} {count : Nat} (found : onGrid? x leading count = some d) :
    d.nearest x.negative = x := by
  unfold onGrid? at found
  simp only at found
  split at found
  next lower upper =>
    cases found
    split
    · exact eq_of_beq lower
    · exact eq_of_beq upper
  next lower _ =>
    cases found
    exact eq_of_beq lower
  next _ upper =>
    cases found
    exact eq_of_beq upper
  next => cases found

theorem nearest_firstOnGrid (finite : x.isFinite = true) (nonzero : 0 < x.significand) (leading : Int)
    (tries count : Nat) : (firstOnGrid x leading tries count).nearest x.negative = x := by
  induction tries generalizing count with
  | zero => exact nearest_exact finite nonzero
  | succ tries ih =>
    rw [firstOnGrid]
    cases found : onGrid? x leading count with
    | none => exact ih (count + 1)
    | some d => exact nearest_of_onGrid? found

/-- The shortest decimal of a finite number reads back as the number. -/
theorem nearest_shortest (finite : x.isFinite = true) : (shortest x).nearest x.negative = x := by
  unfold shortest
  split
  next zero =>
    have fields := Binary64.ofCode_fields finite
    rw [Binary64.isZero, Bool.and_eq_true, beq_iff_eq, beq_iff_eq] at zero
    rw [zero.1, zero.2, Nat.zero_mul] at fields
    exact (nearest_zero 0).trans fields
  next other =>
    rw [Binary64.isZero, Bool.and_eq_true, beq_iff_eq, beq_iff_eq] at other
    have nonzero : 0 < x.significand := by
      rcases Binary64.significand_cases x with ⟨_, _, _⟩ | ⟨_, _, _⟩ <;> omega
    exact nearest_firstOnGrid finite nonzero _ 17 1

end SteinerTrees.Decimal
