import SteinerTrees.Settings.Model
import SteinerTrees.Text.Case

/-! # Settings from the environment

The solver's settings can be given by two variables. One that is absent or empty leaves the setting at
its default. A limit has to be an integer; for the relaxation a few words mean yes and every other text
means no. -/

namespace SteinerTrees

/-- The variables of an environment. -/
abbrev Environment := List (String × String)

namespace Environment

/-- The value of a variable, unless it is absent or empty. -/
def value? (env : Environment) (name : String) : Option String :=
  (env.find? (·.1 == name)).bind fun entry => if entry.2 = "" then none else some entry.2

end Environment

/-- The words that mean yes. -/
def affirmativeWords : List String := ["1", "true", "yes", "on"]

def isAffirmative (text : String) : Bool := Text.lowerAscii (Text.trim text) ∈ affirmativeWords

/-- The integer a text stands for. -/
def integerOf (text : String) : Except Failure Int :=
  match Decimal.readInteger text with
  | .ok n => .ok n
  | .error .malformed => .error (.malformedInteger text)
  | .error (.tooLong digits) => .error (.integerTooLong digits)

/-- The solver's settings in the variables whose names start with `stem`. -/
def SolverSettings.ofEnvironment (env : Environment) (stem : String) : Except Failure SolverSettings := do
  let limit ← match env.value? (stem ++ "MAX_TERMINALS") with
    | some text => (fun n => [("max_terminals", Value.int n)]) <$> integerOf text
    | none => pure []
  let relaxation := match env.value? (stem ++ "RELAXATION") with
    | some text => [("relaxation", Value.bool (isAffirmative text))]
    | none => []
  SolverSettings.ofEntries (limit ++ relaxation)

end SteinerTrees
