import SteinerTrees.Proofs.Solver.Query

/-! # Names of links

The names of links do not matter to a query, but a tree cannot use a link whose name is no member of sets. So a query
on a graph with such names comes to what it comes to without names, or fails at the first of them. -/

namespace SteinerTrees

variable {g : Graph} {adjacency : Adjacency} {t : Table} {α β : Type}

/-! ## Leaving out names -/

def Link.unnamed (link : Link) : Link := { link with name := .null }

namespace Graph

/-- The graph without the names of its links. -/
def unnamed (g : Graph) : Graph := { g with links := g.links.map Link.unnamed }

theorem neighbors_unnamed (g : Graph) (v : Nat) : g.unnamed.neighbors v = g.neighbors v := by
  rw [neighbors, unnamed, Array.toList_map, List.filterMap_map, neighbors]
  rfl

theorem adjacency_unnamed (g : Graph) : g.unnamed.adjacency = g.adjacency := by
  rw [adjacency, adjacency]
  exact congrArg List.toArray (List.map_congr_left fun v _ => g.neighbors_unnamed v)

theorem size_unnamed (g : Graph) : g.unnamed.size = g.size := rfl

theorem vertices_unnamed (g : Graph) : g.unnamed.vertices = g.vertices := rfl

theorem label_unnamed (g : Graph) : g.unnamed.label = g.label := rfl

theorem costTable_unnamed (g : Graph) (relaxation : Bool) (terminals : List Nat) :
    g.unnamed.costTable relaxation terminals = g.costTable relaxation terminals := by
  rw [costTable, adjacency_unnamed, size_unnamed, costTable]

theorem linkBetween?_unnamed (g : Graph) (u v : Nat) :
    g.unnamed.linkBetween? u v = (g.linkBetween? u v).map Link.unnamed := by
  rw [linkBetween?, unnamed, Array.find?_map, linkBetween?]
  rfl

theorem WellFormed.unnamed (valid : g.WellFormed) : g.unnamed.WellFormed where
  labels := valid.labels
  ends link member := by
    rw [Graph.unnamed, Array.toList_map] at member
    obtain ⟨named, listed, rfl⟩ := List.mem_map.mp member
    exact valid.ends named listed
  pairs := by
    rw [Graph.pairs, Graph.unnamed, Array.toList_map, List.map_map]
    exact valid.pairs

theorem edgeSet_unnamed (g : Graph) : g.unnamed.edgeSet = g.edgeSet := by
  rw [edgeSet, pairs, unnamed, Array.toList_map, List.map_map]
  rfl

theorem simple_unnamed (g : Graph) : g.unnamed.simple = g.simple := by
  rw [simple, edgeSet_unnamed, simple]

theorem isHashable_unnamed (g : Graph) : ∀ link ∈ g.unnamed.links.toList, link.name.isHashable = true := by
  intro link member
  rw [unnamed, Array.toList_map] at member
  obtain ⟨named, -, rfl⟩ := List.mem_map.mp member
  rfl

end Graph

/-! ## Trails -/

def Trail.unnamed (trail : Trail) : Trail := { trail with steps := trail.steps.map (·.map Link.unnamed) }

/-- An outcome that fails for a name. -/
def FailsForName (outcome : Except Failure α) : Prop := ∃ part, outcome = .error (.misuse (.unhashable part))

/-- A trail that fails for a name, or comes to another one but for the names. -/
def Tracks (named plain : Except Failure Trail) : Prop := FailsForName named ∨ named.map Trail.unnamed = plain

namespace Tracks

variable {named plain : Except Failure Trail}

theorem ok (trail : Trail) : Tracks (.ok trail) (.ok trail.unnamed) := .inr rfl

theorem error (failure : Failure) : Tracks (.error failure) (.error failure) := .inr rfl

theorem bind {next other : Trail → Except Failure Trail} (before : Tracks named plain)
    (after : ∀ trail, Tracks (next trail) (other trail.unnamed)) : Tracks (named >>= next) (plain >>= other) := by
  rcases before with ⟨part, rfl⟩ | rfl
  · exact .inl ⟨part, rfl⟩
  · cases named with
    | error failure => exact .error failure
    | ok trail => exact after trail

/-- A reading that looks at no names comes before. -/
theorem bind_same {reading : Except Failure α} {next other : α → Except Failure Trail}
    (after : ∀ a, Tracks (next a) (other a)) : Tracks (reading >>= next) (reading >>= other) := by
  cases reading with
  | error failure => exact .error failure
  | ok a => exact after a

theorem use (g : Graph) (trail : Trail) (u v : Nat) : Tracks (trail.use g u v) (trail.unnamed.use g.unnamed u v) := by
  unfold Trail.use
  rw [Graph.linkBetween?_unnamed]
  cases g.linkBetween? u v with
  | none =>
    refine .inr (congrArg Except.ok ?_)
    simp only [Trail.unnamed, List.map_append, List.map_singleton, Option.map_none]
  | some link =>
    rcases link.name.asLabel_cases with ⟨-, read⟩ | ⟨-, part, read⟩
    · refine .inr ?_
      simp only [read, Option.map_some]
      exact congrArg Except.ok (by simp only [Trail.unnamed, List.map_append, List.map_singleton, Option.map_some])
    · exact .inl ⟨part, by simp only [read]; rfl⟩

theorem usePath (g : Graph) (trail : Trail) (path : List Nat) :
    Tracks (trail.usePath g path) (trail.unnamed.usePath g.unnamed path) := by
  induction path generalizing trail with
  | nil => exact .ok _
  | cons u rest ih =>
    cases rest with
    | nil => exact .ok _
    | cons v rest => exact (use g trail u v).bind fun next => ih next

/-- Marks are followed in the same way, whatever the names are. -/
theorem follow (g : Graph) (adjacency : Adjacency) (t : Table) (fuel : Nat) (stack : List (Nat × Nat)) (trail : Trail) :
    Tracks (follow g adjacency t fuel stack trail) (follow g.unnamed adjacency t fuel stack trail.unnamed) := by
  induction fuel generalizing stack trail with
  | zero =>
    cases stack with
    | nil => exact .ok _
    | cons top rest => exact .error _
  | succ fuel ih =>
    cases stack with
    | nil => exact .ok _
    | cons top rest =>
      obtain ⟨mask, v⟩ := top
      rw [SteinerTrees.follow, SteinerTrees.follow]
      split
      · exact ih rest trail
      refine bind_same fun cell => ?_
      cases cell.mark with
      | unset => exact .error _
      | direct =>
        refine bind_same fun terminal => ?_
        cases Hops.path? (Hops.explore adjacency terminal) v with
        | none => exact .error _
        | some path => exact (usePath g _ path).bind fun next => ih rest next
      | merge => exact ih _ _
      | move => exact bind_same fun neighbor => (use g _ v neighbor).bind fun next => ih _ next

end Tracks

theorem Trail.sameStep_unnamed (a b : Option Link) :
    sameStep (a.map Link.unnamed) (b.map Link.unnamed) = sameStep a b := by
  cases a <;> cases b <;> rfl

theorem Trail.distinctSteps_unnamed (steps : List (Option Link)) :
    distinctSteps (steps.map (·.map Link.unnamed)) = (distinctSteps steps).map (·.map Link.unnamed) := by
  induction steps with
  | nil => rfl
  | cons step rest ih =>
    rw [List.map_cons, distinctSteps, ih, distinctSteps, List.map_cons, List.filter_map]
    simp only [Function.comp_def, sameStep_unnamed]

theorem Trail.mapM_steps_unnamed (steps : List (Option Link)) :
    (steps.map (·.map Link.unnamed)).mapM id = (steps.mapM id).map (List.map Link.unnamed) := by
  induction steps with
  | nil => rfl
  | cons step rest ih =>
    rw [List.map_cons, List.mapM_cons, List.mapM_cons, ih]
    cases step with
    | none => rfl
    | some link => cases rest.mapM id <;> rfl

/-! ## Queries -/

/-- Two outcomes that fail alike, unless the first one fails for a name. -/
def FailsAlike (named : Except Failure α) (plain : Except Failure β) : Prop :=
  ∀ failure, named = .error failure → (∃ part, failure = .misuse (.unhashable part)) ∨ plain = .error failure

theorem FailsAlike.of_tracks {named plain : Except Failure Trail} {next other : Trail → Except Failure Tree}
    (tracks : Tracks named plain) (after : ∀ trail, FailsAlike (next trail) (other trail.unnamed)) :
    FailsAlike (named >>= next) (plain >>= other) := by
  rcases tracks with ⟨part, rfl⟩ | rfl
  · intro failure failed
    cases failed
    exact .inl ⟨part, rfl⟩
  · cases named with
    | error failure => exact fun _ failed => .inr (by cases failed; rfl)
    | ok trail => exact after trail

theorem Tracks.trail (t : Table) (g : Graph) (mask hub : Nat) :
    Tracks (t.trail g mask hub) (t.trail g.unnamed mask hub) := by
  unfold Table.trail
  refine bind_same fun start => ?_
  rw [Graph.adjacency_unnamed]
  refine (follow g g.adjacency t _ _ {}).bind fun trail => .inr (congrArg Except.ok ?_)
  rw [Trail.unnamed, Trail.unnamed, Trail.distinctSteps_unnamed]

theorem FailsAlike.tree (t : Table) (g : Graph) (terminals : List Nat) (mask hub : Nat) :
    FailsAlike (t.tree g terminals mask hub) (t.tree g.unnamed terminals mask hub) := by
  refine .of_tracks (.trail t g mask hub) fun trail => ?_
  simp only [Trail.unnamed, Trail.mapM_steps_unnamed]
  cases trail.steps.mapM id with
  | none => exact fun _ failed => .inr failed
  | some links => exact fun _ failed => nomatch failed

theorem FailsAlike.map {named : Except Failure α} {plain : Except Failure β} (alike : FailsAlike named plain)
    {γ δ : Type} (f : α → γ) (h : β → δ) :
    FailsAlike (do return f (← named) : Except Failure γ) (do return h (← plain) : Except Failure δ) := by
  cases named with
  | error failure =>
    intro other failed
    cases failed
    refine (alike failure rfl).imp_right fun same => ?_
    rw [same]
    rfl
  | ok a => exact fun _ failed => nomatch failed

theorem FailsAlike.bestTree (g : Graph) (relaxation : Bool) (terminals : List Nat) :
    FailsAlike (g.bestTree relaxation terminals) (g.unnamed.bestTree relaxation terminals) := by
  unfold Graph.bestTree
  rw [Graph.costTable_unnamed, Graph.size_unnamed, Graph.vertices_unnamed, Graph.label_unnamed]
  simp only
  split
  · exact fun _ failed => .inr failed
  · exact (FailsAlike.tree _ g terminals _ _).map _ _

theorem FailsAlike.solveResolved (g : Graph) (settings : SolverSettings) (terminals : List Nat) :
    FailsAlike (g.solveResolved settings terminals).2 (g.unnamed.solveResolved settings terminals).2 := by
  cases terminals with
  | nil => exact fun _ failed => nomatch failed
  | cons first rest =>
    unfold Graph.solveResolved
    simp only
    split
    · exact fun _ failed => .inr failed
    split
    · exact fun _ failed => nomatch failed
    have alike := FailsAlike.bestTree g settings.relaxation (first :: rest)
    intro failure failed
    cases best : g.bestTree settings.relaxation (first :: rest) with
    | ok tree =>
      rw [best] at failed
      cases failed
    | error other =>
      rw [best] at failed
      cases failed
      exact (alike failure best).imp_right fun same => by rw [same]

namespace Graph

variable {labels : List Value} {settings : SolverSettings} {failure : Failure}

/-- A query on a graph whose names can be members of sets fails for its terminals or not at all. -/
theorem isReported_of_solveResolved (valid : g.WellFormed) {terminals : List Nat}
    (known : ∀ terminal ∈ terminals, terminal < g.size)
    (named : ∀ link ∈ g.links.toList, link.name.isHashable = true)
    (failed : (g.solveResolved settings terminals).2 = .error failure) : failure.isReported = true := by
  rcases solveResolved_cases valid known named settings with ⟨-, same⟩ | ⟨-, -, same⟩ | ⟨-, -, tree, same, -⟩
  · rw [same] at failed
    cases failed
    exact Failure.isReported_written rfl
  · rw [same] at failed
    cases failed
    exact Failure.isReported_written rfl
  · rw [same] at failed
    cases failed

/-- A query for labels is reported to fail for them, or fails for the name of a link. -/
theorem failure_of_solve (valid : g.WellFormed) (hashable : ∀ label ∈ labels, label.isHashable = true)
    (failed : g.solve settings labels = .error failure) : failure.isReported = true ∨
    (∃ part, failure = .misuse (.unhashable part)) ∧ ∃ link ∈ g.links.toList, link.name.isHashable = false := by
  by_cases complete : g.missing labels = []
  case neg =>
    rw [solve_of_missing settings hashable complete] at failed
    cases failed
    exact .inl (Failure.isReported_written rfl)
  case pos =>
    rw [solve_of_complete settings hashable complete] at failed
    have known := g.lt_size_of_mem_found labels
    by_cases named : ∀ link ∈ g.links.toList, link.name.isHashable = true
    · exact .inl (isReported_of_solveResolved valid known named failed)
    · rcases FailsAlike.solveResolved g settings (g.found labels) failure failed with part | plain
      · push Not at named
        obtain ⟨link, member, unusable⟩ := named
        exact .inr ⟨part, link, member, Bool.eq_false_iff.mpr unusable⟩
      · exact .inl (isReported_of_solveResolved valid.unnamed known g.isHashable_unnamed plain)

end Graph

end SteinerTrees
