import Mathlib.Tactic.SplitIfs
import SteinerTrees.Proofs.Decimal.Digits
import SteinerTrees.Proofs.Value.Failing

/-! # Limits

A value can be written unless a number in it has too many digits, and a cause is thrown as itself unless its message
shows such a value. Whatever it is thrown as, the command line reports it if it would report the cause. A list of
numbers can be made unless it has too many members, and that is not reported. -/

namespace SteinerTrees

namespace Value

variable {items : List Value} {entries : List (String × Value)} {a : Value} {count : Nat}

theorem areWritable_eq_all (items : List Value) : areWritable items = items.all (·.isWritable) := by
  induction items with
  | nil => rfl
  | cons item rest ih => rw [areWritable, ih, List.all_cons]

theorem haveWritable_eq_all (entries : List (String × Value)) :
    haveWritable entries = entries.all (·.2.isWritable) := by
  induction entries with
  | nil => rfl
  | cons entry rest ih => rw [haveWritable, ih, List.all_cons]

theorem isWritable_list_iff : (list items).isWritable = true ↔ ∀ item ∈ items, item.isWritable = true := by
  rw [isWritable, areWritable_eq_all, List.all_eq_true]

theorem isWritable_dict_iff : (dict entries).isWritable = true ↔ ∀ entry ∈ entries, entry.2.isWritable = true := by
  rw [isWritable, haveWritable_eq_all, List.all_eq_true]

@[simp] theorem isWritable_text (s : String) : (text s).isWritable = true := by simp only [isWritable]

/-- The members of what can be written can be written. -/
theorem isWritable_of_items (writable : a.isWritable = true) (read : a.items = .ok items) :
    ∀ item ∈ items, item.isWritable = true := by
  cases a with
  | list members =>
    cases read
    exact isWritable_list_iff.mp writable
  | tuple members =>
    cases read
    exact isWritable_list_iff.mp writable
  | text s =>
    cases read
    exact List.forall_mem_map.mpr fun _ _ => isWritable_text _
  | dict entries =>
    cases read
    exact List.forall_mem_map.mpr fun _ _ => isWritable_text _
  | _ => cases read

theorem isWritable_of_lookup? {name : String} (writable : (dict entries).isWritable = true)
    (found : lookup? name entries = some a) : a.isWritable = true := by
  obtain ⟨entry, here, rfl⟩ := Option.map_eq_some_iff.mp found
  exact isWritable_dict_iff.mp writable entry (List.mem_of_find?_eq_some here)

/-- The fields of what can be written can be written. -/
theorem isWritable_of_field {collection : Value} {name : String} (writable : collection.isWritable = true)
    (read : collection.field name = .ok a) : a.isWritable = true := by
  cases collection with
  | dict entries =>
    rw [field] at read
    cases found : lookup? name entries with
    | none =>
      rw [found] at read
      cases read
    | some value =>
      rw [found] at read
      cases read
      exact isWritable_of_lookup? writable found
  | _ => cases read

/-- The least number of too many digits. -/
theorem isWritable_large : (int (10 ^ Decimal.digitLimit)).isWritable = false := by
  rw [isWritable, Bool.eq_false_iff, Ne, Decimal.isWritable_iff, Int.natAbs_pow,
    show Int.natAbs 10 = 10 from rfl]
  exact Nat.lt_irrefl _

/-! ## Lists of numbers -/

/-- A list of numbers is made if it is short enough for the system. -/
theorem listNumbers_eq_ok_iff : listNumbers count = .ok items ↔ count < Nat.pow 2 60 ∧ items = numbers count := by
  have order : Nat.pow 2 60 ≤ Nat.pow 2 63 := by decide
  unfold listNumbers
  split_ifs with huge large
  · exact iff_of_false nofun fun ⟨short, _⟩ => absurd short (by omega)
  · exact iff_of_false nofun fun ⟨short, _⟩ => absurd short (by omega)
  · rw [Except.ok.injEq, eq_comm, and_iff_right (by omega)]

/-- A list has no room, or its length cannot even be counted. -/
inductive LacksSpace (count : Nat) : Failure → Prop where
  | memory : Nat.pow 2 60 ≤ count → count < Nat.pow 2 63 → LacksSpace count .outOfMemory
  | counting : Nat.pow 2 63 ≤ count → LacksSpace count .countTooLarge

theorem lacksSpace_iff {failure : Failure} : LacksSpace count failure ↔
    failure = .outOfMemory ∧ Nat.pow 2 60 ≤ count ∧ count < Nat.pow 2 63 ∨
      failure = .countTooLarge ∧ Nat.pow 2 63 ≤ count := by
  constructor
  · rintro (⟨large, short⟩ | huge)
    · exact .inl ⟨rfl, large, short⟩
    · exact .inr ⟨rfl, huge⟩
  · rintro (⟨rfl, large, short⟩ | ⟨rfl, huge⟩)
    · exact .memory large short
    · exact .counting huge

theorem LacksSpace.le {failure : Failure} (lacks : LacksSpace count failure) : Nat.pow 2 60 ≤ count := by
  rcases lacks with ⟨many, -⟩ | many
  · exact many
  · exact Nat.le_trans (by decide) many

theorem listNumbers_eq_error_iff {failure : Failure} :
    listNumbers count = .error failure ↔ LacksSpace count failure := by
  unfold listNumbers
  split_ifs with huge large <;> constructor
  · rintro ⟨⟩
    exact .counting huge
  · rintro (⟨-, fewer⟩ | -)
    · exact absurd huge (Nat.not_le.mpr fewer)
    · rfl
  · rintro ⟨⟩
    exact .memory large (Nat.not_le.mp huge)
  · rintro (- | also)
    · rfl
    · exact absurd also huge
  · nofun
  · rintro (⟨also, -⟩ | also)
    · exact absurd also large
    · exact absurd also huge

theorem listNumbers_of_lt (short : count < Nat.pow 2 60) : listNumbers count = .ok (numbers count) :=
  listNumbers_eq_ok_iff.mpr ⟨short, rfl⟩

end Value

namespace Failure

variable {cause : Failure} {a b : Value}

theorem written_of_isWritable (writable : cause.isWritable = true) : cause.written = cause := if_pos writable

theorem written_of_not_isWritable (unwritable : cause.isWritable = false) : cause.written = .unwritable := by
  rw [written, unwritable]
  rfl

/-- A cause is thrown as itself, or its message fails. -/
theorem written_cases (cause : Failure) :
    cause.isWritable = true ∧ cause.written = cause ∨ cause.isWritable = false ∧ cause.written = .unwritable := by
  cases writable : cause.isWritable with
  | true => exact .inl ⟨rfl, written_of_isWritable writable⟩
  | false => exact .inr ⟨rfl, written_of_not_isWritable writable⟩

theorem isWritable_iff : cause.isWritable = true ↔ ∀ shown ∈ cause.shownValues, shown.isWritable = true :=
  List.all_eq_true

theorem written_eq_iff {failure : Failure} : cause.written = failure ↔
    cause.isWritable = true ∧ cause = failure ∨ cause.isWritable = false ∧ failure = .unwritable := by
  rcases written_cases cause with ⟨writable, same⟩ | ⟨unwritable, same⟩
  · simp [same, writable]
  · simp [same, unwritable, eq_comm]

/-- A cause that shows one value which can be written. -/
theorem written_single (shown : cause.shownValues = [a]) (writable : a.isWritable = true) : cause.written = cause :=
  written_of_isWritable (isWritable_iff.mpr (shown ▸ List.forall_mem_singleton.mpr writable))

/-- A cause that shows two values which can be written. -/
theorem written_pair (shown : cause.shownValues = [a, b]) (first : a.isWritable = true) (second : b.isWritable = true) :
    cause.written = cause :=
  written_of_isWritable
    (isWritable_iff.mpr (shown ▸ List.forall_mem_cons.mpr ⟨first, List.forall_mem_singleton.mpr second⟩))

/-- What holds of a cause and of the failure to write it holds of what it is thrown as. -/
theorem forall_written {p : Failure → Prop} (itself : p cause) (unwritable : p .unwritable) : p cause.written := by
  rcases written_cases cause with ⟨-, same⟩ | ⟨-, same⟩
  · rwa [same]
  · rwa [same]

/-- What stands for a cause that is reported is reported. -/
theorem isReported_written (reported : cause.isReported = true) : cause.written.isReported = true :=
  forall_written (p := fun failure => failure.isReported = true) reported rfl

/-- What stands for a wrong value is one. -/
theorem isWrongValue_written (wrong : cause.isWrongValue = true) : cause.written.isWrongValue = true :=
  forall_written (p := fun failure => failure.isWrongValue = true) wrong rfl

end Failure

end SteinerTrees
