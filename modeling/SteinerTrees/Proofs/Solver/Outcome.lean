import SteinerTrees.Proofs.Solver.Names

/-! # Outcomes of trails

A trail that is followed to its end collects vertices and steps as the marks say, whatever the names of the links are.
That a tree is not read off a known cell has one reason only, the name of a link that is no member of sets. -/

namespace SteinerTrees

variable {g : Graph} {relaxation : Bool} {terminals : List Nat} {t : Table} {tree plain : Tree}
  {stack : List (Nat × Nat)} {path vertices : List Nat} {trail result : Trail} {steps : List (Option Link)}
  {links : List Link} {mask u v : Nat} {c : Int}

/-! ## What a trail collects -/

/-- The links between consecutive vertices, where there are any. -/
def Graph.stepsAlong (g : Graph) : List Nat → List (Option Link)
  | [] => []
  | [_] => []
  | u :: v :: rest => g.linkBetween? u v :: stepsAlong g (v :: rest)

/-- The vertices and steps that the marks of the cells on a stack stand for, in the order in which they are
followed. -/
inductive Collects (g : Graph) (t : Table) : List (Nat × Nat) → List Nat → List (Option Link) → Prop
  | done : Collects g t [] [] []
  | skip {v : Nat} {stack : List (Nat × Nat)} {vertices : List Nat} {steps : List (Option Link)} :
      Collects g t stack vertices steps → Collects g t ((0, v) :: stack) vertices steps
  | direct {mask v terminal : Nat} {cost : Option Int} {stack : List (Nat × Nat)} {path vertices : List Nat}
      {steps : List (Option Link)} : mask ≠ 0 → t.cellAt g mask v = .ok ⟨cost, .direct, terminal⟩ → terminal < g.size →
      Hops.path? (Hops.explore g.adjacency terminal) v = some path → Collects g t stack vertices steps →
      Collects g t ((mask, v) :: stack) (v :: path ++ vertices) (g.stepsAlong path ++ steps)
  | merge {mask v sub : Nat} {cost : Option Int} {stack : List (Nat × Nat)} {vertices : List Nat}
      {steps : List (Option Link)} : mask ≠ 0 → t.cellAt g mask v = .ok ⟨cost, .merge, sub⟩ →
      Collects g t ((sub, v) :: (mask ^^^ sub, v) :: stack) vertices steps →
      Collects g t ((mask, v) :: stack) (v :: vertices) steps
  | move {mask u v : Nat} {cost : Option Int} {stack : List (Nat × Nat)} {vertices : List Nat}
      {steps : List (Option Link)} : mask ≠ 0 → t.cellAt g mask v = .ok ⟨cost, .move, u⟩ →
      Collects g t ((mask, u) :: stack) vertices steps →
      Collects g t ((mask, v) :: stack) (v :: u :: vertices) (g.linkBetween? v u :: steps)

theorem Graph.vertexAt_eq_ok_iff : g.vertexAt u = .ok v ↔ u < g.size ∧ u = v := by
  unfold vertexAt
  split_ifs with inside
  · rw [Except.ok.injEq, and_iff_right inside]
  · exact ⟨fun failed => (nomatch failed), fun both => absurd both.1 inside⟩

namespace Trail

theorem eq_of_use (used : trail.use g u v = .ok result) :
    result = ⟨trail.vertices, trail.steps ++ [g.linkBetween? u v]⟩ := by
  unfold use at used
  cases found : g.linkBetween? u v with
  | none =>
    rw [found] at used
    exact (Except.ok.inj used).symm
  | some link =>
    rw [found] at used
    obtain ⟨-, -, same⟩ := bind_eq_ok_iff.mp used
    exact (Except.ok.inj same).symm

theorem eq_of_usePath (walked : trail.usePath g path = .ok result) :
    result = ⟨trail.vertices, trail.steps ++ g.stepsAlong path⟩ := by
  induction path generalizing trail with
  | nil =>
    rw [Graph.stepsAlong, List.append_nil]
    exact (Except.ok.inj walked).symm
  | cons u rest ih =>
    cases rest with
    | nil =>
      rw [Graph.stepsAlong, List.append_nil]
      exact (Except.ok.inj walked).symm
    | cons v rest =>
      obtain ⟨next, used, walked⟩ := bind_eq_ok_iff.mp walked
      rw [ih walked, eq_of_use used, Graph.stepsAlong, List.append_assoc]
      rfl

end Trail

/-- Marks that are followed to the end collect what they stand for. -/
theorem Collects.of_follow (fuel : Nat) : ∀ {stack : List (Nat × Nat)} {trail result : Trail},
    follow g g.adjacency t fuel stack trail = .ok result → ∃ vertices steps, Collects g t stack vertices steps ∧
      result = ⟨trail.vertices ++ vertices, trail.steps ++ steps⟩ := by
  have ended : ∀ {trail result : Trail}, Except.ok trail = (.ok result : Except Failure Trail) →
      ∃ vertices steps, Collects g t [] vertices steps ∧
        result = ⟨trail.vertices ++ vertices, trail.steps ++ steps⟩ := by
    intro trail result same
    refine ⟨[], [], .done, ?_⟩
    rw [List.append_nil, List.append_nil]
    exact (Except.ok.inj same).symm
  induction fuel with
  | zero =>
    intro stack trail result ran
    cases stack with
    | nil => exact ended ran
    | cons top rest => cases ran
  | succ fuel ih =>
    intro stack trail result ran
    cases stack with
    | nil => exact ended ran
    | cons top stack =>
      obtain ⟨mask, v⟩ := top
      rw [follow] at ran
      split_ifs at ran with empty
      · obtain ⟨vertices, steps, collects, same⟩ := ih ran
        exact ⟨vertices, steps, empty ▸ collects.skip, same⟩
      obtain ⟨⟨cost, mark, arg⟩, found, ran⟩ := bind_eq_ok_iff.mp ran
      cases mark with
      | unset => cases ran
      | direct =>
        obtain ⟨terminal, inside, ran⟩ := bind_eq_ok_iff.mp ran
        obtain ⟨within, rfl⟩ := Graph.vertexAt_eq_ok_iff.mp inside
        cases traced : Hops.path? (Hops.explore g.adjacency arg) v with
        | none =>
          simp only [traced] at ran
          cases ran
        | some path =>
          simp only [traced] at ran
          obtain ⟨next, walked, ran⟩ := bind_eq_ok_iff.mp ran
          obtain ⟨vertices, steps, collects, same⟩ := ih ran
          refine ⟨_, _, collects.direct empty found within traced, ?_⟩
          rw [same, Trail.eq_of_usePath walked]
          simp only [Trail.visit, List.append_assoc, List.cons_append, List.nil_append]
      | merge =>
        obtain ⟨vertices, steps, collects, same⟩ := ih ran
        refine ⟨_, _, collects.merge empty found, ?_⟩
        rw [same]
        simp only [Trail.visit, List.append_assoc, List.cons_append, List.nil_append]
      | move =>
        obtain ⟨neighbor, inside, ran⟩ := bind_eq_ok_iff.mp ran
        obtain ⟨-, rfl⟩ := Graph.vertexAt_eq_ok_iff.mp inside
        obtain ⟨next, used, ran⟩ := bind_eq_ok_iff.mp ran
        obtain ⟨vertices, steps, collects, same⟩ := ih ran
        refine ⟨_, _, collects.move empty found, ?_⟩
        rw [same, Trail.eq_of_use used]
        simp only [Trail.visit, List.append_assoc, List.cons_append, List.nil_append]

/-! ## Trees that were read off -/

namespace Table

/-- What a tree that was read off is made of. -/
theorem collects_of_tree (read : t.tree g terminals mask v = .ok tree) : ∃ vertices steps,
    Collects g t [(mask, v)] vertices steps ∧ Trail.distinctSteps steps = tree.links.map some ∧
      tree.vertices = g.vertices.filter (· ∈ vertices) := by
  obtain ⟨trail, tracked, read⟩ := bind_eq_ok_iff.mp read
  obtain ⟨hub, inside, tracked⟩ := bind_eq_ok_iff.mp tracked
  obtain ⟨-, rfl⟩ := Graph.vertexAt_eq_ok_iff.mp inside
  obtain ⟨result, ran, same⟩ := bind_eq_ok_iff.mp tracked
  obtain ⟨vertices, steps, collects, rfl⟩ := Collects.of_follow _ ran
  cases same
  split at read
  · rename_i links distinct
    cases read
    exact ⟨vertices, steps, collects, eq_map_some_of_mapM_id distinct, rfl⟩
  · cases read

/-- Reading a tree off a known cell fails only for the name of a link. -/
theorem FilledTo.failsForName_of_tree (filled : t.Filled relaxation g.adjacency terminals) (valid : g.WellFormed)
    (known : ∀ terminal ∈ terminals, terminal < g.size) (nonempty : mask ≠ 0) (below : mask < 2 ^ terminals.length)
    (inside : v < g.size) (cost : t.cost g mask v = some c) {failure : Failure}
    (failed : t.tree g terminals mask v = .error failure) :
    (∃ part, failure = .misuse (.unhashable part)) ∧ ∃ link ∈ g.links.toList, link.name.isHashable = false := by
  constructor
  · have same := g.adjacency_unnamed
    obtain ⟨plain, read, -⟩ := (same.symm ▸ filled).exists_tree (g := g.unnamed) valid.unnamed known
      g.isHashable_unnamed nonempty below inside (by rwa [Table.cost, same])
    refine (FailsAlike.tree t g terminals mask v failure failed).resolve_right fun alike => ?_
    rw [read] at alike
    cases alike
  · by_contra named
    push Not at named
    obtain ⟨tree, read, -⟩ := filled.exists_tree valid known
      (fun link member => Bool.not_eq_false _ ▸ named link member) nonempty below inside cost
    rw [read] at failed
    cases failed

end Table

end SteinerTrees
