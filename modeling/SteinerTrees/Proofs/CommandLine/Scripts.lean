import SteinerTrees.CommandLine.Session
import SteinerTrees.Proofs.Value.Reading

/-! # Rules for scripts

What a script needs of the files it starts with, how it may fail, and what holds of its value and of the files after
it. The rules follow the steps of a script. -/

namespace SteinerTrees.CommandLine.Script

variable {α β : Type} {files : Files} {fails other : Failure → Prop} {holds : α → Files → Prop}
  {after : β → Files → Prop}

/-- Started with some files, a script fails as it may, or holds what it should. -/
def Meets (script : Script α) (files : Files) (fails : Failure → Prop) (holds : α → Files → Prop) : Prop :=
  ∀ session, session.files = files →
    match script.perform session with
    | (.ok a, after) => holds a after.files
    | (.error failure, _) => fails failure

namespace Meets

theorem pure {a : α} (value : holds a files) : Meets (Pure.pure a) files fails holds := by
  rintro session rfl
  exact value

theorem throw {failure : Failure} (may : fails failure) :
    Meets (MonadExcept.throw failure : Script α) files fails holds :=
  fun _ _ => may

theorem bind (holds : α → Files → Prop) {script : Script α} {next : α → Script β}
    (first : Meets script files fails holds)
    (rest : ∀ a files, holds a files → Meets (next a) files fails after) :
    Meets (script >>= next) files fails after := by
  intro session start
  have before := first session start
  have step : (script >>= next).perform session =
      match script.perform session with
      | (.ok a, session) => (next a).perform session
      | (.error failure, session) => (.error failure, session) := by
    simp only [perform, ExceptT.run_bind, StateT.run_bind]
    rcases (ExceptT.run script).run session with ⟨failure | a, last⟩ <;> rfl
  rw [step]
  revert before
  rcases script.perform session with ⟨failure | a, last⟩
  · exact id
  · exact fun value => rest a last.files value last rfl

theorem imp {script : Script α} (meets : Meets script files fails holds)
    (may : ∀ failure, fails failure → other failure) : Meets script files other holds := by
  intro session start
  have before := meets session start
  revert before
  rcases script.perform session with ⟨failure | a, last⟩
  · exact may failure
  · exact id

theorem ofExcept {reading : Except Failure α} (value : ∀ a, reading = .ok a → holds a files)
    (may : ∀ failure, reading = .error failure → fails failure) :
    Meets (Script.ofExcept reading) files fails holds := by
  rintro session rfl
  cases reading with
  | ok a => exact value a rfl
  | error failure => exact may failure rfl

theorem logged {result : Log × Except Failure α} (value : ∀ a, result.2 = .ok a → holds a files)
    (may : ∀ failure, result.2 = .error failure → fails failure) : Meets (Script.logged result) files fails holds := by
  rintro session rfl
  obtain ⟨log, reading⟩ := result
  cases reading with
  | ok a => exact value a rfl
  | error failure => exact may failure rfl

theorem print {holds : Unit → Files → Prop} (value : holds () files) (lines : List String) :
    Meets (Script.print lines) files fails holds := by
  rintro session rfl
  exact value

theorem session {holds : Session → Files → Prop} (value : ∀ session, session.files = files → holds session files) :
    Meets get files fails holds := by
  rintro session rfl
  exact value session rfl

theorem changeFiles {holds : Unit → Files → Prop} {change : Files → Except Failure Files}
    (value : ∀ next, change files = .ok next → holds () next)
    (may : ∀ failure, change files = .error failure → fails failure) :
    Meets (Script.changeFiles change) files fails holds := by
  rintro session rfl
  have step : (Script.changeFiles change).perform session = Script.perform (do
      let files ← Script.ofExcept (change session.files)
      modify fun session => { session with files }) session := rfl
  rw [step]
  cases changed : change session.files with
  | ok next => exact value next changed
  | error failure => exact may failure changed

end Meets

end SteinerTrees.CommandLine.Script
