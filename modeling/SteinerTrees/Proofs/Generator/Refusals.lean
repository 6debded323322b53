import SteinerTrees.Proofs.Generator.Instances
import SteinerTrees.Proofs.Value.Failing

/-! # Sizes that are refused

With parameters that give no more than the number of terminals and a seed, a generator fails for a size that it refuses,
or the failure is reported. A grid reports a negative size; the others do not. A size for which a list has no room is
refused by all. -/

namespace SteinerTrees

variable {source : Source} {kind : GeneratorKind} {params described : List (String × Value)} {seed : Value}
  {labels : List Value} {layout : Layout} {n k : Int}

/-- The lengths of the lists that a generator makes before it lays out a size. -/
def GeneratorKind.lists (size : Nat) : GeneratorKind → List Nat
  | .grid2d => [Layout.rows size, Layout.columns size]
  | .erdosRenyi => [size]
  | .barabasiAlbert => []

/-- What keeps a generator from laying out a size, and is not reported: a random graph has no negative number of nodes,
a growing one has at least two, and some list may have no room. -/
inductive GeneratorKind.Rejects : GeneratorKind → Int → Failure → Prop where
  | negative {n : Int} (below : n < 0) : Rejects .erdosRenyi n (Failure.negativeNodes n).written
  | tooSmall {n : Int} (below : n ≤ 1) : Rejects .barabasiAlbert n (Failure.attachmentBounds (.int 1) (.int n)).written
  | crowded {kind : GeneratorKind} {n : Int} {count : Nat} {failure : Failure} (listed : count ∈ kind.lists n.toNat)
      (lacks : Value.LacksSpace count failure) : Rejects kind n failure

/-- What a generator that does not report a size fails with. A layout of too many nodes is of no use either. -/
inductive GeneratorKind.Refuses (kind : GeneratorKind) (n : Int) : Failure → Prop where
  | before {failure : Failure} (rejects : kind.Rejects n failure) : Refuses kind n failure
  | after (many : Nat.pow 2 60 ≤ n.toNat) : Refuses kind n .outOfMemory

namespace Quantity

end Quantity

namespace Generated

/-- A seed that both random parts take. -/
inductive PlainSeed : Value → Prop where
  | absent : PlainSeed .null
  | given (n : Int) : PlainSeed (.int n)

/-- Parameters that give the number of terminals and perhaps a seed. -/
structure Plain (params : List (String × Value)) (k : Int) : Prop where
  unreserved : (params.find? fun param => param.1 ∈ reserved) = none
  chance : Value.lookup? "p" params = none
  links : Value.lookup? "m" params = none
  wanted : wantedOf params = .int k
  seed : PlainSeed (seedOf params)

/-- An outcome by which a size is rejected, or which fails in no way that is not reported for a size that is not. -/
def Settles (kind : GeneratorKind) (n : Int) {α : Type} (outcome : Except Failure α) : Prop :=
  (∃ failure, kind.Rejects n failure ∧ outcome = .error failure) ∨
    (∀ failure, ¬ kind.Rejects n failure) ∧ FailsOnly (·.isReported = true) outcome

/-- A generated instance can be solved. -/
theorem Plain.solvable (plain : Plain params k) (positive : 0 ≤ k) {g : Generated} {entropy : Nat}
    (generated : generate kind entropy (.int n) params = .ok g) : g.Solvable k.toNat := by
  have counted : (wantedOf params).count = .ok k := by rw [plain.wanted]; rfl
  unfold generate at generated
  exact .of_generateFrom (Source.lawful_ofDice _) rfl counted positive generated

end Generated

end SteinerTrees
