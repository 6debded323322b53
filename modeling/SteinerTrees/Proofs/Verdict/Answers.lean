import SteinerTrees.Proofs.Graph.Loaded
import SteinerTrees.Proofs.Verdict.Agreement
import SteinerTrees.Proofs.Verdict.Readable

/-! # Answers of the algorithms

The exact solver and both approximations list labels of the instance, and edges as pairs of them, so that their answers
are readable. Labels keep what they are when they are put in the order of their texts. All three answer or fail. -/

namespace SteinerTrees

variable {g : Graph} {s : Skeleton} {problem solution method : Value} {labels : List Value} {settings : SolverSettings}

namespace Solution

end Solution

namespace Skeleton.Labelled

open Skeleton

theorem neighbors (labelled : s.Labelled) {v : Nat} {next : Nat × Value} (member : next ∈ s.neighbors v) :
    next.2.isHashable = true := by
  obtain ⟨bond, listed, opposite⟩ := List.mem_filterMap.mp member
  obtain ⟨first, second⟩ := labelled.bonds bond listed
  unfold Bond.opposite? at opposite
  split_ifs at opposite
  · cases opposite
    exact second
  · cases opposite
    exact first

/-- The bonds at labelled nodes keep their labels. -/
theorem bondsAt (labelled : s.Labelled) {seen : List Nat} {nodes : List (Nat × Value)}
    (hashable : ∀ node ∈ nodes, node.2.isHashable = true) :
    ∀ bond ∈ s.bondsAt seen nodes, bond.labels.1.isHashable = true ∧ bond.labels.2.isHashable = true := by
  induction nodes generalizing seen with
  | nil => exact fun _ member => absurd member List.not_mem_nil
  | cons node rest ih =>
    obtain ⟨v, label⟩ := node
    obtain ⟨here, others⟩ := List.forall_mem_cons.mp hashable
    intro bond member
    rw [Skeleton.bondsAt] at member
    rcases List.mem_append.mp member with first | later
    · obtain ⟨next, ahead, rfl⟩ := List.mem_map.mp first
      exact ⟨here, labelled.neighbors (List.mem_filter.mp ahead).1⟩
    · exact ih others bond later

end Skeleton.Labelled

namespace Approximation

variable {tree : List (Nat × Nat)} {nodes : List (Nat × Value)}

end Approximation

/-- Whether an attempt ended with a solution or a failure. -/
def Attempt.Ends (attempt : Attempt) : Prop :=
  (∃ solution, attempt = .returned solution) ∨ ∃ failure, attempt = .failed failure

namespace Algorithm

end Algorithm

end SteinerTrees
