import SteinerTrees.Proofs.Value.Reading

/-! # How a reading can fail

A reading that is made of several fails only as its parts do. The same rules serve for every class of failures. -/

namespace SteinerTrees

variable {α β : Type} {p q : Failure → Prop} {failure : Failure}

/-- A reading of which every failure is of one class. -/
def FailsOnly (p : Failure → Prop) (reading : Except Failure α) : Prop :=
  ∀ failure, reading = .error failure → p failure

namespace FailsOnly

theorem ok (a : α) : FailsOnly p (.ok a : Except Failure α) := nofun

theorem error (may : p failure) : FailsOnly p (.error failure : Except Failure α) := by
  intro other same
  cases same
  exact may

theorem bind {first : Except Failure α} {next : α → Except Failure β} (before : FailsOnly p first)
    (after : ∀ a, first = .ok a → FailsOnly p (next a)) : FailsOnly p (first >>= next) := by
  cases first with
  | error failure => exact .error (before failure rfl)
  | ok a => exact after a rfl

theorem map {reading : Except Failure α} (f : α → β) (only : FailsOnly p reading) : FailsOnly p (f <$> reading) := by
  cases reading with
  | error failure => exact .error (only failure rfl)
  | ok a => exact .ok (f a)

theorem imp {reading : Except Failure α} (only : FailsOnly p reading) (may : ∀ failure, p failure → q failure) :
    FailsOnly q reading := fun failure failed => may failure (only failure failed)

theorem mapM {f : α → Except Failure β} {values : List α} (each : ∀ a ∈ values, FailsOnly p (f a)) :
    FailsOnly p (values.mapM f) := by
  induction values with
  | nil => exact .ok []
  | cons a rest ih =>
    obtain ⟨here, others⟩ := List.forall_mem_cons.mp each
    rw [List.mapM_cons]
    exact here.bind fun _ _ => (ih others).bind fun _ _ => .ok _

/-- A reading that fails in one way only fails in this way or succeeds. -/
theorem exists_error_iff {reading : Except Failure α} (only : FailsOnly p reading) :
    (∃ failure, reading = .error failure ∧ p failure) ↔ ¬ ∃ a, reading = .ok a := by
  cases reading with
  | error failure => exact iff_of_true ⟨failure, rfl, only failure rfl⟩ nofun
  | ok a => exact iff_of_false nofun fun fails => fails ⟨a, rfl⟩

end FailsOnly

/-- A failure for a wrong value, syntax included. -/
def Failure.isWrongValue (failure : Failure) : Bool := failure.kind ∈ ["JSONDecodeError", "ValueError"]

/-- A failure for a value of the wrong type. -/
def Failure.IsMisuse (failure : Failure) : Prop := ∃ fault, failure = .misuse fault

theorem Failure.IsMisuse.not_isWrongValue (misuse : failure.IsMisuse) : failure.isWrongValue = false := by
  obtain ⟨fault, rfl⟩ := misuse
  rfl

namespace Value

theorem failsOnly_items (value : Value) : FailsOnly Failure.IsMisuse value.items := by
  cases value <;> first | exact .ok _ | exact .error ⟨_, rfl⟩

theorem failsOnly_length (value : Value) : FailsOnly Failure.IsMisuse value.length := by
  cases value <;> first | exact .ok _ | exact .error ⟨_, rfl⟩

theorem failsOnly_asLabel (value : Value) : FailsOnly Failure.IsMisuse value.asLabel := by
  unfold asLabel
  split
  · exact .error ⟨_, rfl⟩
  · exact .ok _

theorem failsOnly_asSet (value : Value) : FailsOnly Failure.IsMisuse value.asSet :=
  value.failsOnly_items.bind fun _ _ => (FailsOnly.mapM fun label _ => label.failsOnly_asLabel).bind fun _ _ => .ok _

end Value

end SteinerTrees
