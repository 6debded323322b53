import SteinerTrees.Proofs.Solver.Query

/-! # Failures after the lookup

Missing terminals are reported by the lookup of terminals and by no other step of a query. All later steps fail
in other ways, whatever the table holds and whatever the names of the links are. -/

namespace SteinerTrees

variable {α β : Type} {g : Graph} {adjacency : Adjacency} {t : Table}

/-- An outcome that does not report missing terminals. -/
def PastLookup (outcome : Except Failure α) : Prop := ∀ labels, outcome ≠ .error (.terminalsNotFound labels)

namespace PastLookup

theorem ok (a : α) : PastLookup (.ok a) := by
  intro labels same
  cases same

theorem error {failure : Failure} (other : ∀ labels, failure ≠ .terminalsNotFound labels) :
    PastLookup (.error failure : Except Failure α) := fun labels same => other labels (Except.error.inj same)

theorem written {failure : Failure} (other : ∀ labels, failure ≠ .terminalsNotFound labels) :
    PastLookup (.error failure.written : Except Failure α) := by
  exact Failure.forall_written (p := fun failure => PastLookup (.error failure)) (error other)
    (error fun _ => Failure.noConfusion)

theorem bind {first : Except Failure α} {next : α → Except Failure β} (before : PastLookup first)
    (after : ∀ a, PastLookup (next a)) : PastLookup (first >>= next) := by
  cases first with
  | error failure => exact fun labels same => before labels (by cases same; rfl)
  | ok a => exact after a

theorem asLabel (value : Value) : PastLookup value.asLabel := by
  unfold Value.asLabel
  split
  · exact .error fun _ => Failure.noConfusion
  · exact .ok _

theorem vertexAt (g : Graph) (v : Nat) : PastLookup (g.vertexAt v) := by
  unfold Graph.vertexAt
  split
  · exact .ok _
  · exact .error fun _ => Failure.noConfusion

theorem cellAt (t : Table) (g : Graph) (mask v : Nat) : PastLookup (t.cellAt g mask v) := by
  unfold Table.cellAt
  split
  · exact .ok _
  · exact .error fun _ => Failure.noConfusion

theorem use (g : Graph) (trail : Trail) (u v : Nat) : PastLookup (trail.use g u v) := by
  unfold Trail.use
  cases g.linkBetween? u v with
  | none => exact .ok _
  | some link => exact (asLabel link.name).bind fun _ => .ok _

theorem usePath (g : Graph) (trail : Trail) (path : List Nat) : PastLookup (trail.usePath g path) := by
  induction path generalizing trail with
  | nil => exact .ok _
  | cons u rest ih =>
    cases rest with
    | nil => exact .ok _
    | cons v rest => exact (use g trail u v).bind fun next => ih next

/-- Following marks does not look up terminals. -/
theorem follow (g : Graph) (adjacency : Adjacency) (t : Table) (fuel : Nat) (stack : List (Nat × Nat)) (trail : Trail) :
    PastLookup (follow g adjacency t fuel stack trail) := by
  -- A merge makes the stack longer, so the induction is on the fuel.
  induction fuel generalizing stack trail with
  | zero =>
    cases stack with
    | nil => exact .ok _
    | cons top rest => exact .error fun _ => Failure.noConfusion
  | succ fuel ih =>
    cases stack with
    | nil => exact .ok _
    | cons top rest =>
      obtain ⟨mask, v⟩ := top
      rw [SteinerTrees.follow]
      split
      · exact ih rest trail
      refine (cellAt t g mask v).bind fun cell => ?_
      cases cell.mark with
      | unset => exact .written fun _ => Failure.noConfusion
      | direct =>
        refine (vertexAt g cell.arg).bind fun terminal => ?_
        cases Hops.path? (Hops.explore adjacency terminal) v with
        | none => exact .written fun _ => Failure.noConfusion
        | some path => exact (usePath g _ path).bind fun next => ih rest next
      | merge => exact ih _ _
      | move => exact (vertexAt g cell.arg).bind fun neighbor => (use g _ v neighbor).bind fun next => ih _ next

theorem tree (t : Table) (g : Graph) (terminals : List Nat) (mask hub : Nat) :
    PastLookup (t.tree g terminals mask hub) := by
  refine bind ?_ fun trail => ?_
  · exact (vertexAt g hub).bind fun start => (follow g g.adjacency t _ _ _).bind fun _ => .ok _
  · cases trail.steps.mapM id with
    | none => exact .error fun _ => Failure.noConfusion
    | some links => exact .ok _

theorem bestTree (g : Graph) (relaxation : Bool) (terminals : List Nat) :
    PastLookup (g.bestTree relaxation terminals) := by
  unfold Graph.bestTree
  simp only
  split
  · exact .written fun _ => Failure.noConfusion
  · exact (tree _ g terminals _ _).bind fun _ => .ok _

theorem solveResolved (g : Graph) (settings : SolverSettings) (terminals : List Nat) :
    PastLookup (g.solveResolved settings terminals).2 := by
  cases terminals with
  | nil => exact .ok _
  | cons first rest =>
    unfold Graph.solveResolved
    simp only
    split
    · exact .written fun _ => Failure.noConfusion
    split
    · exact .ok _
    have best := bestTree g settings.relaxation (first :: rest)
    split
    · exact .ok _
    · rename_i failure failed
      rwa [failed] at best

end PastLookup

namespace Graph

/-- A query for labels that are all vertices does not report missing terminals. -/
theorem pastLookup_solve {labels : List Value} (hashable : ∀ label ∈ labels, label.isHashable = true)
    (present : ∀ label ∈ labels, g.indexOf? label ≠ none) (settings : SolverSettings) :
    PastLookup (g.solve settings labels) := by
  rw [solve, solveLogged, resolveTerminals_eq hashable, if_pos (missing_eq_nil_iff.mpr present)]
  exact .solveResolved g settings _

end Graph

end SteinerTrees
