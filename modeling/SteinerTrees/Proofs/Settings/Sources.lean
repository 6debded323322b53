import Mathlib
import SteinerTrees.CommandLine.Run
import SteinerTrees.Proofs.Settings.Checks

/-! # Where the settings of the solver come from

What an argument gives counts before a variable of the environment, and that before the default. The environment is
checked whatever the arguments are, and its settings have a limit of at least one. A limit that an argument gives is
taken as it is, so that settings pass their own check exactly if that limit would. -/

namespace SteinerTrees

variable {env : Environment} {settings : SolverSettings}

namespace SolverSettings

/-- The entries of the settings that are given. -/
def given (limit? : Option Int) (relaxation? : Option Bool) : List (String × Value) :=
  (limit?.map fun limit => [("max_terminals", Value.int limit)]).getD [] ++
    (relaxation?.map fun relaxation => [("relaxation", Value.bool relaxation)]).getD []

/-- The failure of a limit that is too low. -/
def limitTooLow : Failure := .invalid "SolverConfig" [⟨["max_terminals"], "greater_than_equal"⟩]

/-- Settings are refused exactly for a limit below one. -/
theorem ofEntries_given (limit? : Option Int) (relaxation? : Option Bool) : ofEntries (given limit? relaxation?) =
    if 1 ≤ limit?.getD 16 then .ok ⟨limit?.getD 16, relaxation?.getD true⟩ else .error limitTooLow := by
  have checked (limit : Int) : (Checked.integer (.int limit)).atLeast 1 =
      if 1 ≤ limit then .ok limit else Checked.fault "greater_than_equal" := by
    simp [Checked.integer, Checked.atLeast, Checked.require]
  cases limit? with
  | none => cases relaxation? <;> rfl
  | some limit =>
    have passed : Checked.field "max_terminals" (some 16) (fun value => (Checked.integer value).atLeast 1)
        (given (some limit) relaxation?) =
        (if 1 ≤ limit then .ok limit else Checked.fault "greater_than_equal").under "max_terminals" := by
      rw [← checked]
      rfl
    have relaxed : Checked.field "relaxation" (some true) Checked.truth (given (some limit) relaxation?) =
        .ok (relaxation?.getD true) := by
      cases relaxation? <;> rfl
    rw [ofEntries, check, passed, relaxed, Option.getD_some]
    split_ifs <;> rfl

/-- Settings that pass their own check. -/
def Valid (settings : SolverSettings) : Prop :=
  ofEntries (given (some settings.maxTerminals) (some settings.relaxation)) = .ok settings

theorem valid_iff : settings.Valid ↔ 1 ≤ settings.maxTerminals := by
  rw [Valid, ofEntries_given, Option.getD_some, Option.getD_some]
  split_ifs with enough
  · exact iff_of_true rfl enough
  · exact iff_of_false nofun enough

end SolverSettings

namespace Environment

/-- The limit that is set, which has to be an integer. -/
def limit? (env : Environment) : Except Failure (Option Int) :=
  match env.value? "STEINERKIT_MAX_TERMINALS" with
  | some text => some <$> integerOf text
  | none => .ok none

/-- Whether the word that is set means yes. -/
def relaxation? (env : Environment) : Option Bool := (env.value? "STEINERKIT_RELAXATION").map isAffirmative

/-- A text that is no integer is a wrong value. -/
theorem kind_of_limit? {failure : Failure} (failed : env.limit? = .error failure) : failure.kind = "ValueError" := by
  unfold limit? at failed
  split at failed
  next text _ =>
    unfold integerOf at failed
    split at failed <;> cases failed <;> rfl
  next => cases failed

theorem settings_eq (env : Environment) : SolverSettings.ofEnvironment env "STEINERKIT_" =
    env.limit? >>= fun limit? => SolverSettings.ofEntries (SolverSettings.given limit? env.relaxation?) := by
  have named : "STEINERKIT_" ++ "MAX_TERMINALS" = "STEINERKIT_MAX_TERMINALS" := rfl
  have called : "STEINERKIT_" ++ "RELAXATION" = "STEINERKIT_RELAXATION" := rfl
  unfold SolverSettings.ofEnvironment limit? relaxation?
  rw [named, called]
  cases env.value? "STEINERKIT_MAX_TERMINALS" with
  | none => cases env.value? "STEINERKIT_RELAXATION" <;> rfl
  | some text =>
    dsimp only
    cases integerOf text with
    | error failure => rfl
    | ok limit => cases env.value? "STEINERKIT_RELAXATION" <;> rfl

end Environment

namespace CommandLine

variable {arguments : Arguments} {limit? : Option Int}

/-- The settings that arguments and an environment give: each argument counts before its variable. -/
def Arguments.settled (arguments : Arguments) (limit? : Option Int) (env : Environment) : SolverSettings where
  maxTerminals := arguments.maxTerminals.getD (limit?.getD 16)
  relaxation := if arguments.mergeOnly then false else env.relaxation?.getD true

/-- Only the limit of the environment is checked. -/
theorem Arguments.solverSettings_eq (arguments : Arguments) (env : Environment) :
    arguments.solverSettings env = env.limit? >>= fun limit? =>
      if 1 ≤ limit?.getD 16 then .ok (arguments.settled limit? env) else .error SolverSettings.limitTooLow := by
  rw [solverSettings, Environment.settings_eq]
  cases env.limit? with
  | error failure => rfl
  | ok limit? =>
    simp only [bind, Except.bind, SolverSettings.ofEntries_given]
    split_ifs
    · rw [settled]
      cases arguments.mergeOnly <;> rfl
    · rfl

theorem Arguments.valid_settled_iff (enough : 1 ≤ limit?.getD 16) :
    (arguments.settled limit? env).Valid ↔ ∀ limit, arguments.maxTerminals = some limit → 1 ≤ limit := by
  rw [SolverSettings.valid_iff, settled]
  cases arguments.maxTerminals with
  | none => exact iff_of_true enough nofun
  | some limit => simp

/-- Settings come from the arguments, the environment and the defaults, in this order, if the environment gives no
limit or one of at least one. They pass their own check exactly if no argument gives a limit below one. In every other
case the failure is that of a wrong value, whatever the arguments are. -/
theorem Arguments.solverSettings_outcome (arguments : Arguments) (env : Environment) :
    (∃ limit?, env.limit? = .ok limit? ∧ 1 ≤ limit?.getD 16 ∧
      arguments.solverSettings env = .ok (arguments.settled limit? env) ∧
      ((arguments.settled limit? env).Valid ↔ ∀ limit, arguments.maxTerminals = some limit → 1 ≤ limit)) ∨
    ∃ failure, arguments.solverSettings env = .error failure ∧ failure.kind ∈ ["ValueError", "ValidationError"] ∧
      (env.limit? = .error failure ∨
        ∃ limit < 1, env.limit? = .ok (some limit) ∧ failure = SolverSettings.limitTooLow) := by
  rw [solverSettings_eq]
  cases read : env.limit? with
  | error failure => exact .inr ⟨failure, rfl, List.mem_cons.mpr (.inl (Environment.kind_of_limit? read)), .inl rfl⟩
  | ok limit? =>
    simp only [bind, Except.bind]
    split_ifs with enough
    · exact .inl ⟨limit?, rfl, enough, rfl, valid_settled_iff enough⟩
    · refine .inr ⟨_, rfl, List.mem_cons_of_mem _ List.mem_cons_self, .inr ?_⟩
      cases limit? with
      | none => exact absurd (by decide) enough
      | some limit => exact ⟨limit, Int.not_le.mp enough, rfl, rfl⟩

/-- A limit of zero is refused in the environment, and taken from an argument. -/
theorem Arguments.solverSettings_of_zero :
    SolverSettings.ofEnvironment [("STEINERKIT_MAX_TERMINALS", "0")] "STEINERKIT_" =
      .error SolverSettings.limitTooLow ∧
    read ["--max-terminals", "0", "demo"] = .ok { maxTerminals := some 0, command := .demo } ∧
    solverSettings { maxTerminals := some 0, command := .demo } [] = .ok { maxTerminals := 0 } ∧
    ¬ SolverSettings.Valid { maxTerminals := 0 } := by
  refine ⟨by rfl, by cbv, by rfl, ?_⟩
  rw [SolverSettings.valid_iff]
  decide

end CommandLine

end SteinerTrees
