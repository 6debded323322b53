import SteinerTrees.Value.Access
import Mathlib.Data.List.Nodup

/-! # First occurrences

Being the same value is having the same key. A key shows whether its values can be labels. Taking first occurrences
keeps one value of each key. -/

namespace SteinerTrees

/-- Whether a value with this part in its key can be a label. -/
def KeyPart.isHashable : KeyPart → Bool
  | list _ | dict _ => false
  | _ => true

namespace Value

variable {a b : Value} {seen : List Key} {values : List Value}

theorem same_iff : a.same b = true ↔ a.key = b.key := beq_iff_eq

theorem isIn_iff : a.isIn values = true ↔ a.key ∈ values.map key := by
  simp only [isIn, List.any_eq_true, same_iff, List.mem_map, eq_comm (a := a.key)]

/-- A comparison of values of which one equals itself is a comparison of keys. -/
theorem equal_iff (reflexive : a.Reflexive) : a.equal b = true ↔ a.key = b.key := by
  have notNaN : a.isNaN = false := reflexive
  simp only [equal, notNaN, Bool.not_false, Bool.and_true, same_iff]

/-! ## Labels -/

theorem asLabel_eq_ok_iff {label : Value} : a.asLabel = .ok label ↔ a.isHashable = true ∧ label = a := by
  unfold asLabel isHashable
  cases a.unhashablePart? with
  | some part => simp
  | none => simp [eq_comm]

theorem asLabel_of_isHashable (hashable : a.isHashable = true) : a.asLabel = .ok a :=
  asLabel_eq_ok_iff.mpr ⟨hashable, rfl⟩

/-- A value is a label, or has a part that makes it none. -/
theorem asLabel_cases (value : Value) : (value.isHashable = true ∧ value.asLabel = .ok value) ∨
    (value.isHashable = false ∧ ∃ part, value.asLabel = .error (.misuse (.unhashable part))) := by
  unfold asLabel isHashable
  cases value.unhashablePart? with
  | none => exact .inl ⟨rfl, rfl⟩
  | some part => exact .inr ⟨rfl, part, rfl⟩

mutual
/-- The key of a value shows whether it can be a label. -/
theorem unhashablePart?_eq_none_iff (a : Value) :
    a.unhashablePart? = none ↔ ∀ part ∈ a.key, part.isHashable = true := by
  cases a with
  | tuple items =>
    rw [unhashablePart?, key, unhashableItem?_eq_none_iff items, List.forall_mem_cons]
    exact (and_iff_right rfl).symm
  | list items => simp [unhashablePart?, key, KeyPart.isHashable]
  | dict entries => simp [unhashablePart?, key, KeyPart.isHashable]
  | float x =>
    refine iff_of_true rfl (List.forall_mem_singleton.mpr ?_)
    unfold floatPart
    split_ifs
    · rfl
    · split <;> rfl
  | _ => simp [unhashablePart?, key, KeyPart.isHashable]

theorem unhashableItem?_eq_none_iff (items : List Value) :
    unhashableItem? items = none ↔ ∀ part ∈ keyOfItems items, part.isHashable = true := by
  cases items with
  | nil => simp [unhashableItem?, keyOfItems]
  | cons item rest =>
    rw [unhashableItem?, keyOfItems, Option.orElse_eq_or, Option.or_eq_none_iff, unhashablePart?_eq_none_iff item,
      unhashableItem?_eq_none_iff rest, List.forall_mem_append]
end

/-- Of two values with one key, both can be labels or neither. -/
theorem isHashable_congr (same : a.key = b.key) : a.isHashable = b.isHashable := by
  rw [Bool.eq_iff_iff, isHashable, isHashable, Option.isNone_iff_eq_none, Option.isNone_iff_eq_none,
    unhashablePart?_eq_none_iff, unhashablePart?_eq_none_iff, same]

/-! ## Distinct values -/

theorem key_notMem_of_mem_distinctFrom (member : a ∈ distinctFrom seen values) : a.key ∉ seen := by
  induction values generalizing seen with
  | nil => cases member
  | cons value rest ih =>
    rw [distinctFrom] at member
    split at member
    · exact ih member
    · rename_i fresh
      rcases List.mem_cons.mp member with rfl | member
      · exact fresh
      · exact fun old => ih member (List.mem_cons_of_mem _ old)

theorem nodup_key_distinctFrom (seen : List Key) (values : List Value) :
    ((distinctFrom seen values).map key).Nodup := by
  induction values generalizing seen with
  | nil => exact List.nodup_nil
  | cons value rest ih =>
    rw [distinctFrom]
    split
    · exact ih seen
    · refine List.nodup_cons.mpr ⟨?_, ih _⟩
      intro repeated
      obtain ⟨other, member, same⟩ := List.mem_map.mp repeated
      exact key_notMem_of_mem_distinctFrom member (same ▸ List.mem_cons_self)

theorem distinctFrom_sublist (seen : List Key) (values : List Value) :
    (distinctFrom seen values).Sublist values := by
  induction values generalizing seen with
  | nil => exact .slnil
  | cons value rest ih =>
    rw [distinctFrom]
    split
    · exact (ih seen).cons value
    · exact (ih _).cons_cons value

theorem key_mem_distinctFrom (member : a ∈ values) :
    a.key ∈ seen ∨ a.key ∈ (distinctFrom seen values).map key := by
  induction values generalizing seen with
  | nil => cases member
  | cons value rest ih =>
    rw [distinctFrom]
    split
    · rename_i old
      rcases List.mem_cons.mp member with rfl | member
      · exact .inl old
      · exact ih member
    · rw [List.map_cons]
      rcases List.mem_cons.mp member with rfl | member
      · exact .inr List.mem_cons_self
      · rcases @ih (value.key :: seen) member with old | kept
        · rcases List.mem_cons.mp old with same | old
          · exact .inr (same ▸ List.mem_cons_self)
          · exact .inl old
        · exact .inr (List.mem_cons_of_mem _ kept)

theorem distinctFrom_eq_self (fresh : ∀ value ∈ values, value.key ∉ seen) (nodup : (values.map key).Nodup) :
    distinctFrom seen values = values := by
  induction values generalizing seen with
  | nil => rfl
  | cons value rest ih =>
    rw [List.map_cons, List.nodup_cons] at nodup
    rw [distinctFrom, if_neg (fresh value List.mem_cons_self), ih _ nodup.2]
    intro other member old
    rcases List.mem_cons.mp old with same | old
    · exact nodup.1 (same ▸ List.mem_map_of_mem member)
    · exact fresh other (List.mem_cons_of_mem _ member) old

/-- A value at the end is kept if it occurs nowhere before. -/
theorem distinctFrom_append_singleton : distinctFrom seen (values ++ [a]) =
    distinctFrom seen values ++ if a.key ∈ seen ∨ a.key ∈ values.map key then [] else [a] := by
  induction values generalizing seen with
  | nil => simp only [List.nil_append, distinctFrom, List.map_nil, List.not_mem_nil, or_false]
  | cons value rest ih =>
    rw [List.cons_append, distinctFrom, distinctFrom, ih, ih]
    split
    · rename_i old
      have dropped : a.key ∈ seen ∨ a.key ∈ (value :: rest).map key ↔ a.key ∈ seen ∨ a.key ∈ rest.map key := by
        rw [List.map_cons, List.mem_cons, ← or_assoc]
        exact or_congr_left (or_iff_left_of_imp fun same => same ▸ old)
      simp only [dropped]
    · have moved : a.key ∈ seen ∨ a.key ∈ (value :: rest).map key ↔
          a.key ∈ value.key :: seen ∨ a.key ∈ rest.map key := by
        rw [List.map_cons, List.mem_cons, List.mem_cons, or_assoc, or_left_comm]
      simp only [moved, List.cons_append]

theorem nodup_key_distinct (values : List Value) : ((distinct values).map key).Nodup :=
  nodup_key_distinctFrom [] values

theorem mem_of_mem_distinct (member : a ∈ distinct values) : a ∈ values :=
  (distinctFrom_sublist [] values).subset member

theorem exists_mem_distinct (member : a ∈ values) : ∃ kept ∈ distinct values, kept.key = a.key := by
  rcases @key_mem_distinctFrom a [] values member with old | kept
  · cases old
  · exact List.mem_map.mp kept

theorem distinct_append_singleton : distinct (values ++ [a]) =
    distinct values ++ if a.key ∈ values.map key then [] else [a] := by
  rw [distinct, distinct, distinctFrom_append_singleton]
  simp only [List.not_mem_nil, false_or]

/-- More values leave the first occurrences in front. -/
theorem distinct_prefix (values more : List Value) : distinct values <+: distinct (values ++ more) := by
  induction more generalizing values with
  | nil => simpa only [List.append_nil] using List.prefix_rfl
  | cons value rest ih =>
    have longer := ih (values ++ [value])
    rw [List.append_assoc, List.singleton_append] at longer
    refine List.IsPrefix.trans ?_ longer
    rw [distinct_append_singleton]
    exact List.prefix_append _ _

theorem key_mem_distinct_iff {k : Key} : k ∈ (distinct values).map key ↔ k ∈ values.map key := by
  simp only [List.mem_map]
  constructor
  · rintro ⟨value, member, same⟩
    exact ⟨value, mem_of_mem_distinct member, same⟩
  · rintro ⟨value, member, same⟩
    obtain ⟨kept, first, alike⟩ := exists_mem_distinct member
    exact ⟨kept, first, alike.trans same⟩

/-- What occurs already adds nothing. -/
theorem distinct_append_of_mem {more : List Value} (known : ∀ value ∈ more, value.key ∈ values.map key) :
    distinct (values ++ more) = distinct values := by
  induction more generalizing values with
  | nil => rw [List.append_nil]
  | cons value rest ih =>
    have old := known value List.mem_cons_self
    rw [← List.singleton_append, ← List.append_assoc, ih, distinct_append_singleton, if_pos old, List.append_nil]
    intro other member
    rw [List.map_append]
    exact List.mem_append_left _ (known other (List.mem_cons_of_mem _ member))

theorem distinct_eq_self (nodup : (values.map key).Nodup) : distinct values = values :=
  distinctFrom_eq_self (fun _ _ => List.not_mem_nil) nodup

/-! ## Integers -/

theorem key_int_iff {m n : Int} : (int m).key = (int n).key ↔ m = n := by
  simp only [key, List.cons.injEq, KeyPart.number.injEq, and_true]

/-- The numbers of nodes are different values. -/
theorem nodup_key_numbers (count : Nat) : ((numbers count).map key).Nodup := by
  rw [numbers, List.map_map]
  exact List.nodup_range.map fun u v same => Int.natCast_inj.mp (key_int_iff.mp same)

@[simp] theorem length_numbers (count : Nat) : (numbers count).length = count := by
  rw [numbers, List.length_map, List.length_range]

theorem getElem?_numbers {count k : Nat} (inside : k < count) : (numbers count)[k]? = some (int k) := by
  rw [numbers, List.getElem?_map, List.getElem?_range inside, Option.map_some]

theorem getD_numbers {count k : Nat} (inside : k < count) : (numbers count).getD k null = int k := by
  rw [List.getD_eq_getElem?_getD, getElem?_numbers inside, Option.getD_some]

theorem isHashable_of_mem_numbers {count : Nat} : ∀ label ∈ numbers count, label.isHashable = true :=
  List.forall_mem_map.mpr fun _ _ => rfl

end Value

end SteinerTrees
