import SteinerTrees.Proofs.Value.Reading
import SteinerTrees.Settings.Checked

/-! # What passed a check

Faults of several settings are collected, so several checks pass exactly if each of them does. A setting that is given
passes if its value does, and one that is left out takes its default. -/

namespace SteinerTrees.Checked

variable {α β : Type} {a : α} {b : β} {checked : Checked α} {entries : List (String × Value)} {name : String}
  {value : Value} {check : Value → Checked α} {default? : Option α}

theorem map_eq_ok_iff {f : α → β} : f <$> checked = .ok b ↔ ∃ a, checked = .ok a ∧ f a = b := by
  cases checked with
  | ok a => simp only [Functor.map, ok.injEq, exists_eq_left']
  | faults issues => simp only [Functor.map, reduceCtorEq, false_and, exists_false]

/-- A check of one more setting passes if the check so far and that of the setting do. -/
theorem seq_eq_ok_iff {f : Checked (α → β)} : f <*> checked = .ok b ↔
    ∃ g a, f = .ok g ∧ checked = .ok a ∧ g a = b := by
  cases f <;> cases checked <;>
    simp only [Seq.seq, both, Functor.map, ok.injEq, reduceCtorEq, false_and, and_false, exists_false,
      exists_eq_left', exists_and_left]

theorem under_eq_ok_iff {step : String} : checked.under step = .ok a ↔ checked = .ok a := by
  cases checked <;> simp only [under, reduceCtorEq]

theorem require_eq_ok_iff {holds : α → Bool} {rule : String} :
    checked.require holds rule = .ok a ↔ checked = .ok a ∧ holds a = true := by
  cases checked with
  | faults issues => simp only [require, reduceCtorEq, false_and]
  | ok value =>
    rw [require, ok.injEq]
    by_cases passed : holds value = true
    · rw [if_pos passed, ok.injEq]
      exact ⟨fun same => ⟨same, same ▸ passed⟩, fun both => both.1⟩
    · rw [if_neg passed]
      exact ⟨(nomatch ·), fun both => absurd (both.1 ▸ both.2) passed⟩

theorem toExcept_eq_ok_iff {model : String} : checked.toExcept model = .ok a ↔ checked = .ok a := by
  cases checked <;> simp only [toExcept, Except.ok.injEq, ok.injEq, reduceCtorEq]

theorem field_eq_ok_iff (given : Value.lookup? name entries = some value) :
    field name default? check entries = .ok a ↔ check value = .ok a := by
  simp only [field, fieldOf, List.findSome?_cons, given, Option.map_some, under_eq_ok_iff]

end SteinerTrees.Checked
