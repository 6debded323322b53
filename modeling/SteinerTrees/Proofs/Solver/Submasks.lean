import SteinerTrees.Solver.Merge
import Mathlib.Algebra.Group.Nat.Defs
import Mathlib.Data.Nat.Basic
import Mathlib.Data.Set.Basic

/-! # Parts of a set of terminals

A set of terminals is a number whose bits are its members. The chain of submasks lists each proper part of a
set that has members, and a set without such parts has at most one member. -/

namespace SteinerTrees

variable {mask sub s x y i n : Nat}

/-- Every member of the first set is one of the second. -/
def Within (sub mask : Nat) : Prop := ∀ i, sub.testBit i = true → mask.testBit i = true

theorem Within.refl (mask : Nat) : Within mask mask := fun _ member => member

theorem Within.le (within : Within sub mask) : sub ≤ mask := Nat.le_of_testBit within

theorem Within.half (within : Within sub mask) : Within (sub / 2) (mask / 2) := by
  intro i member
  rw [Nat.testBit_div_two] at member ⊢
  exact within _ member

theorem Within.parity (within : Within sub mask) : sub % 2 ≤ mask % 2 := by
  have lowest := within 0
  rw [Nat.testBit_zero, Nat.testBit_zero, decide_eq_true_iff, decide_eq_true_iff] at lowest
  omega

theorem within_and_right (x mask : Nat) : Within (x &&& mask) mask := by
  intro i member
  rw [Nat.testBit_and, Bool.and_eq_true] at member
  exact member.2

theorem Within.and_eq (within : Within sub mask) : sub &&& mask = sub := by
  apply Nat.eq_of_testBit_eq
  intro i
  rw [Nat.testBit_and]
  cases member : sub.testBit i with
  | false => rfl
  | true => rw [within i member, Bool.and_true]

theorem and_eq_halves (x y : Nat) : x &&& y = 2 * (x / 2 &&& y / 2) + x % 2 * (y % 2) := by
  have low : (x &&& y) % 2 = x % 2 * (y % 2) := by
    have both := @Nat.and_mod_two_eq_one x y
    rcases Nat.mod_two_eq_zero_or_one x with first | first
    · rw [first, Nat.zero_mul]
      omega
    · rw [first, Nat.one_mul]
      omega
  have high : (x &&& y) / 2 = x / 2 &&& y / 2 := Nat.and_div_two
  omega

/-! ## The chain of submasks -/

/-- The next submask in the chain is the largest one below. -/
theorem Within.le_pred_and (inside : Within x mask) :
    ∀ {s : Nat}, Within s mask → x < s → x ≤ (s - 1) &&& mask := by
  induction x using Nat.strongRecOn generalizing mask with
  | _ x ih =>
    intro s within below
    rw [and_eq_halves]
    rcases Nat.mod_two_eq_zero_or_one s with even | odd
    · -- Borrowing sets the lowest bit, which `x` has only if `mask` has it.
      have halves : (s - 1) / 2 = s / 2 - 1 := by omega
      have parity := inside.parity
      have ones : (s - 1) % 2 = 1 := by omega
      rw [halves, ones]
      by_cases zero : x = 0
      · omega
      · have := ih (x / 2) (by omega) inside.half within.half (by omega)
        omega
    · have halves : (s - 1) / 2 = s / 2 := by omega
      rw [halves, within.half.and_eq]
      omega

theorem mem_submasksFrom_iff :
    ∀ {s : Nat}, Within s mask → (x ∈ submasksFrom mask s ↔ x ≠ 0 ∧ x ≤ s ∧ Within x mask) := by
  intro s
  induction s using Nat.strongRecOn with
  | _ s ih =>
    intro within
    rw [submasksFrom]
    split_ifs with zero
    · simp only [List.not_mem_nil, false_iff, not_and]
      omega
    · have smaller : (s - 1) &&& mask ≤ s - 1 := Nat.and_le_left
      rw [List.mem_cons, ih _ (by omega) (within_and_right _ _)]
      constructor
      · rintro (rfl | ⟨nonempty, le, inside⟩)
        · exact ⟨zero, le_rfl, within⟩
        · exact ⟨nonempty, by omega, inside⟩
      · rintro ⟨nonempty, le, inside⟩
        by_cases same : x = s
        · exact .inl same
        · exact .inr ⟨nonempty, inside.le_pred_and within (by omega), inside⟩

/-- A part of a set that is neither empty nor the whole set. -/
structure IsPart (mask sub : Nat) : Prop where
  nonempty : sub ≠ 0
  proper : sub ≠ mask
  within : Within sub mask

theorem mem_submasks_iff : sub ∈ submasks mask ↔ IsPart mask sub := by
  have smaller : (mask - 1) &&& mask ≤ mask - 1 := Nat.and_le_left
  rw [submasks, mem_submasksFrom_iff (within_and_right _ _)]
  constructor
  · rintro ⟨nonempty, le, within⟩
    exact ⟨nonempty, by omega, within⟩
  · rintro ⟨nonempty, proper, within⟩
    have := within.le
    exact ⟨nonempty, within.le_pred_and (.refl mask) (by omega), within⟩

theorem pairwise_submasksFrom (mask s : Nat) : (submasksFrom mask s).Pairwise (· > ·) := by
  induction s using Nat.strongRecOn with
  | _ s ih =>
    rw [submasksFrom]
    split_ifs with zero
    · exact .nil
    · have smaller : (s - 1) &&& mask ≤ s - 1 := Nat.and_le_left
      refine List.pairwise_cons.mpr ⟨fun sub member => ?_, ih _ (by omega)⟩
      have le := ((mem_submasksFrom_iff (within_and_right _ _)).mp member).2.1
      omega

/-- Parts are listed from the greatest down, each once. -/
theorem pairwise_submasks (mask : Nat) : (submasks mask).Pairwise (· > ·) := pairwise_submasksFrom mask _

/-! ## Parts and the rest -/

theorem within_rest (within : Within sub mask) : Within (mask ^^^ sub) mask := by
  intro i member
  rw [Nat.testBit_xor] at member
  by_contra outside
  rw [Bool.not_eq_true] at outside
  rw [outside, Bool.false_xor] at member
  rw [within i member] at outside
  cases outside

namespace IsPart

theorem lt (part : IsPart mask sub) : sub < mask := lt_of_le_of_ne part.within.le part.proper

theorem lt_two_pow (part : IsPart mask sub) (below : mask < 2 ^ n) : sub < 2 ^ n := lt_trans part.lt below

theorem rest (part : IsPart mask sub) : IsPart mask (mask ^^^ sub) where
  nonempty empty := part.proper (by
    have back : mask ^^^ (mask ^^^ sub) = mask := by rw [empty, Nat.xor_zero]
    rwa [← Nat.xor_assoc, Nat.xor_self, Nat.zero_xor] at back)
  proper whole := part.nonempty (by
    have back : mask ^^^ (mask ^^^ sub) = mask ^^^ mask := by rw [whole]
    rwa [← Nat.xor_assoc, Nat.xor_self, Nat.zero_xor] at back)
  within := within_rest part.within

/-- A member of a set is in the part or in the rest. -/
theorem testBit_or_rest (member : mask.testBit i = true) (sub : Nat) :
    sub.testBit i = true ∨ (mask ^^^ sub).testBit i = true := by
  rw [Nat.testBit_xor, member]
  cases sub.testBit i with
  | true => exact .inl rfl
  | false => exact .inr rfl

end IsPart

theorem Within.add_xor (within : Within sub mask) : sub + (mask ^^^ sub) = mask := by
  induction mask using Nat.strongRecOn generalizing sub with
  | _ mask ih =>
    by_cases zero : mask = 0
    · have := within.le
      have : sub = 0 := by omega
      rw [zero, this, Nat.xor_self]
    · have halves := ih (mask / 2) (by omega) within.half
      have high : (mask ^^^ sub) / 2 = mask / 2 ^^^ sub / 2 := Nat.xor_div_two
      have low : (mask ^^^ sub) % 2 = mask % 2 - sub % 2 := by
        have odd := @Nat.xor_mod_two_eq_one mask sub
        have parity := within.parity
        omega
      have parity := within.parity
      omega

/-! ## Single sets -/

theorem isSingle_iff : isSingle mask = true ↔ ∀ sub, ¬ IsPart mask sub := by
  have listed : submasks mask = [] ↔ isSingle mask = true := by
    rw [submasks, submasksFrom, isSingle, beq_iff_eq, Nat.and_comm]
    split_ifs with zero
    · exact iff_of_true rfl zero
    · exact iff_of_false not_false zero
  rw [← listed, List.eq_nil_iff_forall_not_mem]
  simp only [mem_submasks_iff]

/-- A set with members but without proper parts has one member. -/
theorem exists_eq_two_pow (single : isSingle mask = true) (nonempty : mask ≠ 0) : ∃ i, mask = 2 ^ i := by
  obtain ⟨i, member⟩ := Nat.exists_testBit_of_ne_zero nonempty
  refine ⟨i, ?_⟩
  by_contra differ
  refine isSingle_iff.mp single (2 ^ i) ⟨Nat.ne_of_gt (Nat.two_pow_pos i), Ne.symm differ, ?_⟩
  intro j only
  rw [Nat.testBit_two_pow, decide_eq_true_iff] at only
  exact only ▸ member

theorem isSingle_two_pow (i : Nat) : isSingle (2 ^ i) = true := by
  rw [isSingle_iff]
  rintro sub ⟨nonempty, proper, within⟩
  apply proper
  have only : ∀ j, sub.testBit j = true → i = j := by
    intro j member
    exact decide_eq_true_iff.mp (Nat.testBit_two_pow ▸ within j member)
  obtain ⟨j, member⟩ := Nat.exists_testBit_of_ne_zero nonempty
  apply Nat.eq_of_testBit_eq
  intro k
  rw [Nat.testBit_two_pow]
  by_cases same : i = k
  · rw [decide_eq_true same, ← same, only j member, member]
  · rw [decide_eq_false same, Bool.eq_false_iff]
    exact fun other => same (only k other)

/-- A set that is not empty has one member, or a part. -/
theorem eq_two_pow_or_exists_part (nonempty : mask ≠ 0) (below : mask < 2 ^ n) :
    (∃ i < n, mask = 2 ^ i) ∨ ∃ sub, IsPart mask sub := by
  by_cases single : isSingle mask = true
  · obtain ⟨i, rfl⟩ := exists_eq_two_pow single nonempty
    exact .inl ⟨i, (Nat.pow_lt_pow_iff_right (by omega)).mp below, rfl⟩
  · rw [isSingle_iff] at single
    push Not at single
    exact .inr single

/-- Induction over sets that are not empty: one member, or a part and the rest. -/
theorem parts_induction {P : Nat → Prop} (single : ∀ i < n, P (2 ^ i))
    (union : ∀ mask sub, mask < 2 ^ n → IsPart mask sub → P sub → P (mask ^^^ sub) → P mask) (nonempty : mask ≠ 0)
    (below : mask < 2 ^ n) : P mask := by
  induction mask using Nat.strongRecOn with
  | _ mask parts =>
    rcases eq_two_pow_or_exists_part nonempty below with ⟨i, small, rfl⟩ | ⟨sub, part⟩
    · exact single i small
    · exact union mask sub below part (parts sub part.lt part.nonempty (part.lt_two_pow below))
        (parts _ part.rest.lt part.rest.nonempty (part.rest.lt_two_pow below))

/-! ## Members -/

/-- The terminals that are members of a set. -/
def members (terminals : List Nat) (mask : Nat) : Set Nat :=
  {u | ∃ i, mask.testBit i = true ∧ terminals[i]? = some u}

variable {terminals : List Nat} {u : Nat}

theorem members_mono (within : Within sub mask) : members terminals sub ⊆ members terminals mask :=
  fun _ ⟨i, member, found⟩ => ⟨i, within i member, found⟩

theorem mem_members_or_rest (member : u ∈ members terminals mask) (sub : Nat) :
    u ∈ members terminals sub ∨ u ∈ members terminals (mask ^^^ sub) := by
  obtain ⟨i, member, found⟩ := member
  exact (IsPart.testBit_or_rest member sub).imp (⟨i, ·, found⟩) (⟨i, ·, found⟩)

theorem mem_members_two_pow : u ∈ members terminals (2 ^ i) ↔ terminals[i]? = some u := by
  constructor
  · rintro ⟨j, member, found⟩
    rw [Nat.testBit_two_pow, decide_eq_true_iff] at member
    rwa [member]
  · exact fun found => ⟨i, Nat.testBit_two_pow_self, found⟩

theorem mem_members_full : u ∈ members terminals (2 ^ terminals.length - 1) ↔ u ∈ terminals := by
  rw [List.mem_iff_getElem?]
  constructor
  · rintro ⟨i, -, found⟩
    exact ⟨i, found⟩
  · rintro ⟨i, found⟩
    refine ⟨i, ?_, found⟩
    rw [Nat.testBit_two_pow_sub_one, decide_eq_true_iff]
    exact (List.getElem?_eq_some_iff.mp found).1

/-- The members with some property make a set, and the rest are the others. -/
theorem exists_selection (terminals : List Nat) (mask : Nat) (select : Nat → Prop) :
    ∃ sub, Within sub mask ∧ (∀ u ∈ members terminals sub, select u) ∧
    ∀ u ∈ members terminals (mask ^^^ sub), ¬ select u := by
  classical
  let chosen : Fin mask → Bool :=
    fun i => decide (mask.testBit i = true ∧ ∃ u, terminals[i.1]? = some u ∧ select u)
  have bits : ∀ i, (Nat.ofBits chosen).testBit i = true ↔
      mask.testBit i = true ∧ ∃ u, terminals[i]? = some u ∧ select u := by
    intro i
    by_cases low : i < mask
    · rw [Nat.testBit_ofBits_lt _ _ low, decide_eq_true_iff]
    · have high : mask < 2 ^ i := Nat.lt_of_le_of_lt (by omega) Nat.lt_two_pow_self
      rw [Nat.testBit_ofBits_ge _ _ (by omega), Nat.testBit_lt_two_pow high]
      simp only [Bool.false_eq_true, false_and]
  refine ⟨Nat.ofBits chosen, fun i member => ((bits i).mp member).1, ?_, ?_⟩
  · rintro u ⟨i, member, found⟩
    obtain ⟨-, w, other, selected⟩ := (bits i).mp member
    rw [found] at other
    cases other
    exact selected
  · rintro u ⟨i, member, found⟩ selected
    have inside : mask.testBit i = true := by
      by_contra outside
      have left : (Nat.ofBits chosen).testBit i = false :=
        Bool.eq_false_iff.mpr fun taken => outside ((bits i).mp taken).1
      rw [Nat.testBit_xor, left, Bool.xor_false] at member
      exact outside member
    rw [Nat.testBit_xor, inside, (bits i).mpr ⟨inside, u, found, selected⟩] at member
    cases member

end SteinerTrees
