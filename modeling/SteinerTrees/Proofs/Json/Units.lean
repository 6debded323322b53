import Mathlib.Data.List.Chain
import SteinerTrees.Json.Reader
import SteinerTrees.Proofs.Text.Points

/-! # UTF-16 units of texts

A code point has one UTF-16 unit, or two that are a pair. Joining the units of code points gives these back, unless the
two surrogates of a pair stand side by side. What came out of joining has none such. -/

namespace SteinerTrees.Json

open Text

variable {high low n code : Nat} {codes : List Nat}

/-- The UTF-16 units of a code point. -/
def units (n : Nat) : List Nat :=
  if n < 0x10000 then [n] else [0xD800 + (n - 0x10000) / 0x400, 0xDC00 + (n - 0x10000) % 0x400]

/-! ## Pairs -/

theorem pair?_eq_none_of_not_high (other : isHighSurrogate high = false) : pair? high low = none := by
  rw [pair?, other, Bool.false_and]
  rfl

theorem pair?_eq_none_of_not_low (other : isLowSurrogate low = false) : pair? high low = none := by
  rw [pair?, other, Bool.and_false]
  rfl

/-- A code point that is no single unit is no surrogate. -/
theorem not_surrogate_of_le (wide : 0x10000 ≤ n) : isHighSurrogate n = false ∧ isLowSurrogate n = false := by
  constructor
  · rw [← Bool.not_eq_true, isHighSurrogate_iff]
    omega
  · rw [← Bool.not_eq_true, isLowSurrogate_iff]
    omega

theorem pair?_eq_some_iff : pair? high low = some code ↔ (0xD800 ≤ high ∧ high ≤ 0xDBFF) ∧
    (0xDC00 ≤ low ∧ low ≤ 0xDFFF) ∧ code = 0x10000 + (high - 0xD800) * 0x400 + (low - 0xDC00) := by
  unfold pair?
  split
  next both =>
    rw [Bool.and_eq_true, isHighSurrogate_iff, isLowSurrogate_iff] at both
    rw [Option.some.injEq, eq_comm, and_iff_right both.1, and_iff_right both.2]
  next apart =>
    rw [Bool.and_eq_true, isHighSurrogate_iff, isLowSurrogate_iff] at apart
    exact iff_of_false nofun fun ⟨first, second, _⟩ => apart ⟨first, second⟩

/-- The two units of a code point are its pair. -/
theorem pair?_units (wide : 0x10000 ≤ n) (bound : n ≤ lastPoint) :
    pair? (0xD800 + (n - 0x10000) / 0x400) (0xDC00 + (n - 0x10000) % 0x400) = some n := by
  rw [lastPoint] at bound
  exact pair?_eq_some_iff.mpr ⟨by omega, by omega, by omega⟩

theorem bounds_of_pair? (paired : pair? high low = some code) : 0x10000 ≤ code ∧ code ≤ lastPoint := by
  obtain ⟨first, second, same⟩ := pair?_eq_some_iff.mp paired
  rw [lastPoint]
  omega

/-! ## Code points without split pairs -/

/-- No two code points side by side are the surrogates of a pair. -/
def Joined (codes : List Nat) : Prop := codes.IsChain fun a b => pair? a b = none

theorem joined_of_lt (plain : ∀ code ∈ codes, code < 0xD800) : Joined codes := by
  induction codes with
  | nil => exact .nil
  | cons code rest ih =>
    refine List.isChain_cons.mpr ⟨fun next _ => ?_, ih fun next member => plain next (List.mem_cons_of_mem code member)⟩
    have low := plain code List.mem_cons_self
    refine pair?_eq_none_of_not_high ?_
    rw [← Bool.not_eq_true, isHighSurrogate_iff]
    omega

/-- The first code point that joining makes is no low surrogate for the unit in front of it. -/
theorem head?_joinUnits (apart : pair? high low = none) :
    ∀ code ∈ (joinUnits (low :: codes)).head?, pair? high code = none := by
  intro code first
  cases codes with
  | nil =>
    cases first
    exact apart
  | cons next rest =>
    rw [joinUnits] at first
    split at first
    next joint paired =>
      cases first
      exact pair?_eq_none_of_not_low (not_surrogate_of_le (bounds_of_pair? paired).1).2
    next =>
      cases first
      exact apart

/-- Joining leaves no split pair. -/
theorem joined_joinUnits (codes : List Nat) : Joined (joinUnits codes) := by
  fun_induction joinUnits codes with
  | case1 high low rest code paired ih =>
    refine List.isChain_cons.mpr ⟨fun next _ => ?_, ih⟩
    exact pair?_eq_none_of_not_high (not_surrogate_of_le (bounds_of_pair? paired).1).1
  | case2 high low rest apart ih => exact List.isChain_cons.mpr ⟨head?_joinUnits apart, ih⟩
  | case3 code => exact .singleton _
  | case4 => exact .nil

theorem le_of_mem_joinUnits (bounded : ∀ code ∈ codes, code ≤ lastPoint) :
    ∀ code ∈ joinUnits codes, code ≤ lastPoint := by
  fun_induction joinUnits codes with
  | case1 high low rest code paired ih =>
    refine List.forall_mem_cons.mpr ⟨(bounds_of_pair? paired).2, ih fun next member => ?_⟩
    exact bounded next (List.mem_cons_of_mem _ (List.mem_cons_of_mem _ member))
  | case2 high low rest apart ih =>
    obtain ⟨first, others⟩ := List.forall_mem_cons.mp bounded
    exact List.forall_mem_cons.mpr ⟨first, ih others⟩
  | case3 | case4 => exact bounded

theorem length_joinUnits_le (codes : List Nat) : (joinUnits codes).length ≤ codes.length := by
  fun_induction joinUnits codes with
  | case1 high low rest code paired ih => exact Nat.succ_le_succ (Nat.le_succ_of_le ih)
  | case2 high low rest apart ih => exact Nat.succ_le_succ ih
  | case3 | case4 => exact Nat.le_refl _

/-- The first unit of a code point is the code point itself or no low surrogate. -/
theorem exists_units_eq_cons (bound : n ≤ lastPoint) : ∃ unit rest, units n = unit :: rest ∧
    (unit = n ∨ isLowSurrogate unit = false) := by
  unfold units
  split
  · exact ⟨n, [], rfl, .inl rfl⟩
  · refine ⟨_, _, rfl, .inr ?_⟩
    rw [← Bool.not_eq_true, isLowSurrogate_iff]
    rw [lastPoint] at bound
    omega

/-- The units of code points without split pairs are joined to these. -/
theorem joinUnits_units (joined : Joined codes) (bounded : ∀ code ∈ codes, code ≤ lastPoint) :
    joinUnits (codes.flatMap units) = codes := by
  induction codes with
  | nil => rfl
  | cons code rest ih =>
    obtain ⟨apart, joined⟩ := List.isChain_cons.mp joined
    obtain ⟨bound, others⟩ := List.forall_mem_cons.mp bounded
    have again := ih joined others
    rw [List.flatMap_cons]
    by_cases narrow : code < 0x10000
    · rw [units, if_pos narrow, List.singleton_append]
      cases rest with
      | nil => rw [List.flatMap_nil, joinUnits]
      | cons next rest =>
        obtain ⟨unit, behind, same, first⟩ := exists_units_eq_cons (others next List.mem_cons_self)
        have unpaired : pair? code unit = none := by
          rcases first with rfl | other
          · exact apart _ rfl
          · exact pair?_eq_none_of_not_low other
        rw [List.flatMap_cons, same, List.cons_append] at again ⊢
        rw [joinUnits, unpaired]
        simp only
        rw [again]
    · rw [units, if_neg narrow]
      simp only [List.cons_append, List.nil_append]
      rw [joinUnits, pair?_units (Nat.le_of_not_lt narrow) bound]
      simp only
      rw [again]

end SteinerTrees.Json
