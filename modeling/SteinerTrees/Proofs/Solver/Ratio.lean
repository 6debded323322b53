import SteinerTrees.Proofs.Solver.Stars

/-! # How far stars are from minimum trees

Edges that join some terminals have a center: a vertex with a star that costs at most half as many times as many edges
as there are terminals. To find it, the edges are cut at one edge, and the terminals on the side that has fewer of them
move to the end of the edge on the other side. -/

namespace SteinerTrees.Graph

variable {g : Graph} {settings : SolverSettings} {labels : List Value} {terminals : List Nat} {edges kept lost : Edges}
  {move : Nat → Nat} {away : Nat → Bool} {root rest more u v : Nat}

theorem starCost_cons (g : Graph) (terminal : Nat) (terminals : List Nat) (v : Nat) :
    g.starCost (terminal :: terminals) v = g.distance terminal v + g.starCost terminals v := by
  rw [starCost, List.map_cons, List.sum_cons, starCost]

/-! ## Moving terminals -/

/-- Moving some terminals saves at most the way that they move. -/
theorem starCost_le_of_moved (here : ∀ terminal ∈ terminals, away terminal = false → move terminal = terminal)
    (near : ∀ terminal ∈ terminals, away terminal = true → g.distance terminal (move terminal) ≤ more) (v : Nat) :
    g.starCost terminals v ≤ g.starCost (terminals.map move) v + (terminals.countP away * more : Nat) := by
  induction terminals with
  | nil => exact zero_le
  | cons terminal others ih =>
    have later := ih (fun other member => here other (List.mem_cons_of_mem terminal member))
      fun other member => near other (List.mem_cons_of_mem terminal member)
    rw [List.map_cons, starCost_cons, starCost_cons, List.countP_cons]
    cases moved : away terminal with
    | false =>
      rw [here terminal List.mem_cons_self moved, if_neg Bool.false_ne_true, add_zero, add_assoc]
      exact add_le_add_right later _
    | true =>
      have way : g.distance terminal v ≤ more + g.distance (move terminal) v :=
        SimpleGraph.edist_triangle.trans (add_le_add_left (near terminal List.mem_cons_self moved) _)
      calc g.distance terminal v + g.starCost others v
        _ ≤ (more + g.distance (move terminal) v) +
            (g.starCost (others.map move) v + (others.countP away * more : Nat)) :=
          add_le_add way later
        _ = g.distance (move terminal) v + g.starCost (others.map move) v +
            ((others.countP away + if true = true then 1 else 0) * more : Nat) := by
          rw [if_pos rfl, Nat.add_mul, Nat.one_mul]
          push_cast
          ac_rfl

/-- If no more than half of the terminals move, a center for where they are then is one for where they were. -/
theorem exists_center_of_moved (away : Nat → Bool) (move : Nat → Nat)
    (here : ∀ terminal ∈ terminals, away terminal = false → move terminal = terminal)
    (near : ∀ terminal ∈ terminals, away terminal = true → g.distance terminal (move terminal) ≤ more)
    (few : terminals.countP away ≤ terminals.length / 2)
    (center : ∃ v < g.size, g.starCost (terminals.map move) v ≤ ((terminals.map move).length / 2 * rest : Nat)) :
    ∃ v < g.size, g.starCost terminals v ≤ (terminals.length / 2 * (rest + more) : Nat) := by
  obtain ⟨v, inside, cheap⟩ := center
  rw [List.length_map] at cheap
  refine ⟨v, inside, ?_⟩
  calc g.starCost terminals v
    _ ≤ g.starCost (terminals.map move) v + (terminals.countP away * more : Nat) := starCost_le_of_moved here near v
    _ ≤ (terminals.length / 2 * rest : Nat) + (terminals.length / 2 * more : Nat) :=
      add_le_add cheap (Nat.cast_le.mpr (Nat.mul_le_mul_right more few))
    _ = (terminals.length / 2 * (rest + more) : Nat) := by rw [Nat.mul_add, Nat.cast_add]

/-- The terminals on one side of an edge move to its end on the other side. -/
theorem exists_center_of_side (away : Nat → Bool) (subset : lost ⊆ g.edgeSet) (edge : s(u, v) ∈ g.edgeSet)
    (center : ∀ others : List Nat, (∀ terminal ∈ others, Joined kept v terminal) →
      ∃ w < g.size, g.starCost others w ≤ (others.length / 2 * kept.card : Nat))
    (stays : ∀ terminal ∈ terminals, away terminal = false → Joined kept v terminal)
    (moves : ∀ terminal ∈ terminals, away terminal = true → Joined lost u terminal)
    (few : terminals.countP away ≤ terminals.length / 2) :
    ∃ w < g.size, g.starCost terminals w ≤ (terminals.length / 2 * (kept.card + (lost.card + 1)) : Nat) := by
  refine exists_center_of_moved away (fun terminal => if away terminal then v else terminal)
    (fun terminal _ stay => by rw [stay, if_neg Bool.false_ne_true]) (fun terminal member moved => ?_) few
    (center _ fun place member => ?_)
  · rw [moved, if_pos rfl]
    calc g.distance terminal v ≤ g.distance terminal u + g.distance u v := SimpleGraph.edist_triangle
      _ ≤ lost.card + 1 :=
        add_le_add (distance_le_card subset (moves terminal member moved).symm) (distance_le_one edge)
      _ = (lost.card + 1 : Nat) := by push_cast; rfl
  · obtain ⟨terminal, among, rfl⟩ := List.mem_map.mp member
    cases moved : away terminal with
    | false => exact stays terminal among moved
    | true => exact .refl kept v

/-- Edges that join terminals to a vertex have a center. -/
theorem exists_center (valid : g.WellFormed) (subset : edges ⊆ g.edgeSet) (inside : root < g.size)
    (joined : ∀ terminal ∈ terminals, Joined edges root terminal) :
    ∃ v < g.size, g.starCost terminals v ≤ (terminals.length / 2 * edges.card : Nat) := by
  induction size : edges.card using Nat.strongRecOn generalizing edges terminals root with
  | _ size fewer =>
    subst size
    by_cases ends : ∃ u, s(root, u) ∈ edges
    · obtain ⟨u, edge⟩ := ends
      obtain ⟨near, far, nearSubset, farSubset, count, sides⟩ := Joined.exists_sides edge
      have within := subset edge
      have left := nearSubset.trans subset
      have right := farSubset.trans subset
      classical
      set beyond : Nat → Bool := fun terminal => !decide (Joined near root terminal)
      have here : ∀ terminal ∈ terminals, beyond terminal = false → Joined near root terminal :=
        fun terminal _ stay => by simpa [beyond] using stay
      have there : ∀ terminal ∈ terminals, beyond terminal = true → Joined far u terminal :=
        fun terminal member moved =>
          (sides terminal (joined terminal member)).resolve_left (by simpa [beyond] using moved)
      by_cases few : terminals.countP beyond ≤ terminals.length / 2
      · have center := exists_center_of_side beyond right (Sym2.eq_swap ▸ within)
          (fun others joined => fewer near.card (by omega) left inside joined rfl) here there few
        rwa [← Nat.add_assoc, count] at center
      · have total :
            terminals.length = terminals.countP beyond + terminals.countP fun terminal => !beyond terminal := by
          rw [List.length_eq_countP_add_countP beyond]
          simp only [Bool.not_eq_true, Bool.decide_eq_false]
        have center := exists_center_of_side (fun terminal => !beyond terminal) left within
          (fun others joined => fewer far.card (by omega) right (valid.lt_size within).2 joined rfl)
          (fun terminal member stay => there terminal member (by simpa using stay))
          (fun terminal member moved => here terminal member (by simpa using moved)) (by omega)
        rwa [← Nat.add_assoc, Nat.add_comm far.card, count] at center
    · push Not at ends
      have here : ∀ terminal ∈ terminals, g.distance terminal root = 0 := by
        intro terminal member
        by_contra differ
        rw [distance, SimpleGraph.edist_eq_zero_iff] at differ
        obtain ⟨w, edge⟩ := (joined terminal member).exists_edge (Ne.symm differ)
        exact ends w edge
      refine ⟨root, inside, ?_⟩
      rw [starCost, List.map_congr_left here]
      simp

/-! ## The costs of both kinds of table -/

theorem Answerable.withRelaxation (answerable : g.Answerable settings labels) (relaxation : Bool) :
    g.Answerable { settings with relaxation } labels :=
  ⟨answerable.hashable, answerable.present, answerable.together, answerable.several, answerable.few⟩

/-- A query without relaxed rows costs no less than one with relaxed rows, and at most half as many times as much as
there are terminals. So for two and for three terminals both cost the same. -/
theorem solve_ratio (built : g.Built) (named : ∀ link ∈ g.links.toList, link.name.isHashable = true)
    (answerable : g.Answerable settings labels) : ∃ opt star : Nat,
    (∃ tree, g.solve { settings with relaxation := true } labels = .ok tree ∧ tree.cost = opt) ∧
    (∃ tree, g.solve { settings with relaxation := false } labels = .ok tree ∧ tree.cost = star) ∧
    opt ≤ star ∧ star ≤ (Value.distinct labels).length / 2 * opt ∧
    ((Value.distinct labels).length ≤ 3 → star = opt) := by
  have valid := built.wellFormed
  have known := g.lt_size_of_mem_found labels
  have nonempty := answerable.found_ne_nil
  obtain ⟨best, c, isBest, tree, solved, read⟩ := (answerable.withRelaxation true).exists_hub valid named
  obtain ⟨hub, d, isHub, other, again, plain⟩ := (answerable.withRelaxation false).exists_hub valid named
  obtain ⟨opt, rfl, least, -⟩ := isBest.isLeast valid known nonempty
  obtain ⟨star, rfl, total, first⟩ := isHub.star valid known nonempty
  have lower : (opt : Int) ≤ star := le_cost valid known least isHub.inside isHub.cost
  have upper : star ≤ (Value.distinct labels).length / 2 * opt := by
    obtain ⟨part, -, connected, holds, count⟩ := least.1
    obtain ⟨edges, subset, same, joins⟩ := exists_edges_of_preconnected connected
    obtain ⟨root, member⟩ := List.exists_mem_of_ne_nil _ nonempty
    obtain ⟨center, inside, cheap⟩ := exists_center valid subset (known root member)
      fun terminal among => joins root (holds member) terminal (holds among)
    rw [same, count, length_found answerable.complete] at cheap
    have enough := (first.1.2 center inside).trans cheap
    rwa [total, Nat.cast_le] at enough
  refine ⟨opt, star, ⟨tree, solved, read.cost_eq⟩, ⟨other, again, plain.cost_eq⟩, by omega, upper, fun three => ?_⟩
  have several := answerable.several
  have half : (Value.distinct labels).length / 2 = 1 := by omega
  rw [half, Nat.one_mul] at upper
  omega

/-- For four terminals the star is longer, since the bridge counts twice in it. -/
theorem solve_ratio_bridged : bridged.Answerable {} bridgedTerminals ∧
    (∃ tree, bridged.solve { relaxation := true } bridgedTerminals = .ok tree ∧ tree.cost = 5) ∧
    (∃ tree, bridged.solve { relaxation := false } bridgedTerminals = .ok tree ∧ tree.cost = 6) ∧
    6 ≤ (Value.distinct bridgedTerminals).length / 2 * 5 := by
  obtain ⟨opt, star, ⟨tree, solved, least⟩, ⟨other, again, longer⟩, -, upper, -⟩ :=
    solve_ratio built_bridged named_bridged (answerable_bridged true)
  have five : (bridged.solve { relaxation := true } bridgedTerminals).toOption.map (·.cost) = some 5 := by
    decide +kernel
  have six : (bridged.solve { relaxation := false } bridgedTerminals).toOption.map (·.cost) = some 6 := by
    decide +kernel
  rw [solved] at five
  rw [again] at six
  replace five : tree.cost = 5 := Option.some.inj five
  replace six : other.cost = 6 := Option.some.inj six
  obtain rfl : opt = 5 := by omega
  obtain rfl : star = 6 := by omega
  exact ⟨answerable_bridged true, ⟨tree, solved, five⟩, ⟨other, again, six⟩, upper⟩

end SteinerTrees.Graph
