import SteinerTrees.Proofs.Solver.Optimal
import SteinerTrees.Solver.Tree

/-! # Trails

Following the marks from a known cell uses links that join the vertex to all terminals of the set, exactly as
many as the cell costs. Each mark spends one unit of fuel, and the fuel is enough for all of them. -/

namespace SteinerTrees

variable {g : Graph} {relaxation : Bool} {terminals : List Nat} {t : Table} {link : Link}
  {links more : List Link}
  {vertices others path : List Nat} {trail : Trail} {mask sub u v w i : Nat} {c : Int}

/-! ## Branches -/

/-- The pairs that some links join. -/
def edgesOf (links : List Link) : Edges := (links.map Link.pair).toFinset

theorem mem_edgesOf_iff {edge : Sym2 Nat} : edge ∈ edgesOf links ↔ ∃ link ∈ links, link.pair = edge := by
  rw [edgesOf, List.mem_toFinset, List.mem_map]

theorem edgesOf_mono (subset : links ⊆ more) : edgesOf links ⊆ edgesOf more := by
  intro edge member
  obtain ⟨link, member, same⟩ := mem_edgesOf_iff.mp member
  exact mem_edgesOf_iff.mpr ⟨link, subset member, same⟩

theorem edgesOf_subset_edgeSet (used : ∀ link ∈ links, link ∈ g.links.toList) :
    edgesOf links ⊆ g.edgeSet := by
  intro edge member
  obtain ⟨link, among, rfl⟩ := mem_edgesOf_iff.mp member
  exact Graph.mem_edgeSet_of_mem (used link among)

theorem edgesOf_within (ends : ∀ link ∈ links, link.source ∈ vertices ∧ link.target ∈ vertices) :
    ∀ edge ∈ edgesOf links, ∀ v ∈ edge, v ∈ vertices.toFinset := by
  intro edge member v endpoint
  obtain ⟨link, among, rfl⟩ := mem_edgesOf_iff.mp member
  rw [List.mem_toFinset]
  rcases Sym2.mem_iff.mp endpoint with rfl | rfl
  · exact (ends link among).1
  · exact (ends link among).2

theorem edgesOf_loopless (loopless : ∀ link ∈ links, link.source ≠ link.target) :
    ∀ edge ∈ edgesOf links, ¬ edge.IsDiag := by
  intro edge member
  obtain ⟨link, among, rfl⟩ := mem_edgesOf_iff.mp member
  exact loopless link among

theorem card_edgesOf (once : (links.map Link.pair).Nodup) : (edgesOf links).card = links.length := by
  rw [edgesOf, List.toFinset_card_of_nodup once, List.length_map]

/-- Links of a graph, with their ends among some vertices, that join all these to one of them. -/
structure Branch (g : Graph) (root : Nat) (vertices : List Nat) (links : List Link) : Prop where
  rooted : root ∈ vertices
  known : ∀ v ∈ vertices, v < g.size
  used : ∀ link ∈ links, link ∈ g.links.toList
  ends : ∀ link ∈ links, link.source ∈ vertices ∧ link.target ∈ vertices
  loopless : ∀ link ∈ links, link.source ≠ link.target
  joins : ∀ v ∈ vertices, Joined (edgesOf links) root v

namespace Branch

theorem point (inside : v < g.size) : Branch g v [v] [] where
  rooted := List.mem_singleton_self v
  known _ member := List.mem_singleton.mp member ▸ inside
  used _ member := absurd member List.not_mem_nil
  ends _ member := absurd member List.not_mem_nil
  loopless _ member := absurd member List.not_mem_nil
  joins u member := by
    rw [List.mem_singleton.mp member]
    exact .refl _ v

theorem of_mem_iff (branch : Branch g v vertices links) (same : ∀ u, u ∈ others ↔ u ∈ vertices) :
    Branch g v others links where
  rooted := (same v).mpr branch.rooted
  known u member := branch.known u ((same u).mp member)
  used := branch.used
  ends link member := (branch.ends link member).imp (same _).mpr (same _).mpr
  loopless := branch.loopless
  joins u member := branch.joins u ((same u).mp member)

/-- Any vertex of a branch can be its root. -/
theorem reroot (branch : Branch g v vertices links) (member : u ∈ vertices) : Branch g u vertices links where
  rooted := member
  known := branch.known
  used := branch.used
  ends := branch.ends
  loopless := branch.loopless
  joins w other := (branch.joins u member).symm.trans (branch.joins w other)

/-- A branch at a vertex of another one extends it. -/
theorem append (first : Branch g v vertices links) (second : Branch g u others more) (member : u ∈ vertices) :
    Branch g v (vertices ++ others) (links ++ more) where
  rooted := List.mem_append_left _ first.rooted
  known w member := (List.mem_append.mp member).elim (first.known w) (second.known w)
  used link member := (List.mem_append.mp member).elim (first.used link) (second.used link)
  ends link member := by
    rcases List.mem_append.mp member with old | new
    · exact (first.ends link old).imp (List.mem_append_left _) (List.mem_append_left _)
    · exact (second.ends link new).imp (List.mem_append_right _) (List.mem_append_right _)
  loopless link member := (List.mem_append.mp member).elim (first.loopless link) (second.loopless link)
  joins w member' := by
    have left := edgesOf_mono (List.subset_append_left links more)
    have right := edgesOf_mono (List.subset_append_right links more)
    rcases List.mem_append.mp member' with old | new
    · exact (first.joins w old).mono left
    · exact ((first.joins u member).mono left).trans ((second.joins w new).mono right)

/-- A link to the root of a branch extends it. -/
theorem cons (branch : Branch g u vertices links) (member : link ∈ g.links.toList)
    (pair : link.pair = s(v, u)) (differ : v ≠ u)
    (inside : v < g.size) : Branch g v (v :: vertices) (link :: links) where
  rooted := List.mem_cons_self
  known w member := by
    rcases List.mem_cons.mp member with rfl | member
    · exact inside
    · exact branch.known w member
  used other among := by
    rcases List.mem_cons.mp among with rfl | among
    · exact member
    · exact branch.used other among
  ends other among := by
    rcases List.mem_cons.mp among with rfl | among
    · rcases Sym2.eq_iff.mp pair with ⟨first, second⟩ | ⟨first, second⟩
      · exact ⟨first ▸ List.mem_cons_self, second ▸ List.mem_cons_of_mem v branch.rooted⟩
      · exact ⟨first ▸ List.mem_cons_of_mem v branch.rooted, second ▸ List.mem_cons_self⟩
    · exact (branch.ends other among).imp (List.mem_cons_of_mem v) (List.mem_cons_of_mem v)
  loopless other among := by
    rcases List.mem_cons.mp among with rfl | among
    · intro loop
      rcases Sym2.eq_iff.mp pair with ⟨first, second⟩ | ⟨first, second⟩
      · exact differ (first.symm.trans (loop.trans second))
      · exact differ (second.symm.trans (loop.symm.trans first))
    · exact branch.loopless other among
  joins w among := by
    rcases List.mem_cons.mp among with rfl | among
    · exact .refl _ w
    · have edge : s(v, u) ∈ edgesOf (link :: links) := mem_edgesOf_iff.mpr ⟨link, List.mem_cons_self, pair⟩
      exact (Joined.single edge).trans
        ((branch.joins w among).mono (edgesOf_mono (List.subset_cons_self _ _)))

end Branch

/-! ## Steps -/

namespace Trail

variable (named : ∀ link ∈ g.links.toList, link.name.isHashable = true)

include named

theorem use_of_edge (edge : s(u, v) ∈ g.edgeSet) : ∃ link ∈ g.links.toList, link.pair = s(u, v) ∧
    ∀ trail : Trail, trail.use g u v = .ok { trail with steps := trail.steps ++ [some link] } := by
  obtain ⟨link, member, found, pair⟩ := Graph.linkBetween?_of_mem edge
  refine ⟨link, member, pair, ?_⟩
  intro trail
  simp only [use, found, Value.asLabel_of_isHashable (named link member)]
  rfl

/-- A path uses one link for each of its steps. -/
theorem usePath_of_chain (valid : g.WellFormed) (path : List Nat) : ∀ u : Nat,
    (u :: path).IsChain (fun a b => b ∈ g.adjacency.getD a []) → (u :: path).Nodup →
    (∀ v ∈ u :: path, v < g.size) →
    ∃ links, links.length = path.length ∧ Branch g u (u :: path) links ∧
      ∀ trail : Trail, trail.usePath g (u :: path) =
      .ok { trail with steps := trail.steps ++ links.map some } := by
  induction path with
  | nil =>
    intro u _ _ inside
    refine ⟨[], rfl, .point (inside u List.mem_cons_self), ?_⟩
    intro trail
    rw [List.map_nil, List.append_nil]
    rfl
  | cons v rest ih =>
    intro u chain distinct inside
    obtain ⟨neighbor, chain⟩ := List.isChain_cons_cons.mp chain
    obtain ⟨fresh, distinct⟩ := List.nodup_cons.mp distinct
    have differ : u ≠ v := fun same => fresh (same ▸ List.mem_cons_self)
    obtain ⟨link, member, pair, used⟩ := use_of_edge named (valid.mem_adjacency_iff.mp neighbor)
    obtain ⟨links, length, branch, walked⟩ :=
      ih v chain distinct fun w member => inside w (List.mem_cons_of_mem u member)
    refine ⟨link :: links, by rw [List.length_cons, List.length_cons, length],
      branch.cons member pair differ (inside u List.mem_cons_self), ?_⟩
    intro trail
    rw [usePath, used]
    apply (walked _).trans
    rw [List.append_assoc, List.map_cons]
    rfl

end Trail

/-! ## Following the marks -/

/-- What following a known cell comes to: a branch that holds the set and has as many links as the cell costs,
for a bounded amount of fuel, and then the rest of the stack. -/
structure Followed (g : Graph) (terminals : List Nat) (t : Table) (mask v : Nat) (c : Int) (spent : Nat)
    (vertices : List Nat) (links : List Link) : Prop where
  bounded : (spent : Int) + 1 ≤ 2 * mask + c
  count : (links.length : Int) = c
  branch : Branch g v vertices links
  holds : ∀ u ∈ members terminals mask, u ∈ vertices
  rest : ∀ fuel stack trail, follow g g.adjacency t (spent + fuel) ((mask, v) :: stack) trail =
    follow g g.adjacency t fuel stack ⟨trail.vertices ++ vertices, trail.steps ++ links.map some⟩

section Steps

variable {cost : Option Int} {arg fuel : Nat} {stack : List (Nat × Nat)}

theorem follow_direct (nonempty : mask ≠ 0) (found : t.cellAt g mask v = .ok ⟨cost, .direct, arg⟩)
    (inside : arg < g.size) (traced : Hops.path? (Hops.explore g.adjacency arg) v = some path)
    (walked : Trail.usePath g ⟨trail.vertices ++ v :: path, trail.steps⟩ path =
      .ok ⟨trail.vertices ++ v :: path, trail.steps ++ links.map some⟩) :
    follow g g.adjacency t (fuel + 1) ((mask, v) :: stack) trail =
      follow g g.adjacency t fuel stack ⟨trail.vertices ++ v :: path, trail.steps ++ links.map some⟩ := by
  rw [follow, if_neg nonempty]
  simp only [found, Graph.vertexAt, if_pos inside, bind, Except.bind, traced, Trail.visit, List.append_assoc,
    List.singleton_append, walked]

theorem follow_merge (nonempty : mask ≠ 0) (found : t.cellAt g mask v = .ok ⟨cost, .merge, arg⟩) :
    follow g g.adjacency t (fuel + 1) ((mask, v) :: stack) trail =
      follow g g.adjacency t fuel ((arg, v) :: (mask ^^^ arg, v) :: stack)
        ⟨trail.vertices ++ [v], trail.steps⟩ := by
  rw [follow, if_neg nonempty]
  simp only [found, bind, Except.bind, Trail.visit]

theorem follow_move (nonempty : mask ≠ 0) (found : t.cellAt g mask v = .ok ⟨cost, .move, arg⟩)
    (inside : arg < g.size) (used : Trail.use g ⟨trail.vertices ++ [v, arg], trail.steps⟩ v arg =
      .ok ⟨trail.vertices ++ [v, arg], trail.steps ++ [some link]⟩) :
    follow g g.adjacency t (fuel + 1) ((mask, v) :: stack) trail =
      follow g g.adjacency t fuel ((mask, arg) :: stack)
        ⟨trail.vertices ++ [v, arg], trail.steps ++ [some link]⟩ := by
  rw [follow, if_neg nonempty]
  simp only [found, Graph.vertexAt, if_pos inside, bind, Except.bind, Trail.visit, List.append_assoc,
    List.singleton_append, used]

end Steps

namespace Table.FilledTo

theorem cellAt_eq (filled : t.Filled relaxation g.adjacency terminals) (below : mask < 2 ^ terminals.length)
    (inside : v < g.size) : t.cellAt g mask v = .ok (t.entry g.adjacency.size mask v) := by
  have fits := pow_mul_le_size filled.size below
  rw [g.adjacency_size] at fits
  have found : t[mask * g.size + v]? = some (t.entry g.adjacency.size mask v) := by
    rw [Array.getElem?_eq_getElem (by omega), entry, cell, g.adjacency_size, Array.getD_eq_getD_getElem?,
      Array.getElem?_eq_getElem (by omega), Option.getD_some]
  rw [cellAt, found]

theorem justified_cellAt (filled : t.Filled relaxation g.adjacency terminals) (below : mask < 2 ^ terminals.length)
    (inside : v < g.size) {cell : Cell} (found : t.cellAt g mask v = .ok cell) :
    Justified relaxation g.adjacency terminals t mask v cell := by
  rw [Except.ok.inj (found.symm.trans (filled.cellAt_eq below inside))]
  exact filled.justified mask below v (g.adjacency_size ▸ inside)

section Marks

variable (filled : t.Filled relaxation g.adjacency terminals)

include filled

theorem followed_direct (valid : g.WellFormed) (known : ∀ terminal ∈ terminals, terminal < g.size)
    (named : ∀ link ∈ g.links.toList, link.name.isHashable = true) {terminal : Nat} {visit : Hops.Visit}
    (found : terminals[i]? = some terminal) (inside : v < g.size)
    (reached : Hops.visit? (Hops.explore g.adjacency terminal) v = some visit)
    (taken : t.entry g.adjacency.size (2 ^ i) v = ⟨some visit.hops, .direct, terminal⟩) :
    ∃ spent vertices links, Followed g terminals t (2 ^ i) v visit.hops spent vertices links := by
  have source : terminal < g.size := known terminal (List.mem_of_getElem? found)
  have positive : 0 < 2 ^ i := Nat.two_pow_pos i
  have below : 2 ^ i < 2 ^ terminals.length :=
    Nat.pow_lt_pow_right (by omega) (List.getElem?_eq_some_iff.mp found).1
  obtain ⟨path, traced, isPath, within⟩ := Hops.exists_path valid.bounded (g.adjacency_size ▸ source) reached
  obtain ⟨rest, rfl⟩ : ∃ rest, path = terminal :: rest := by
    cases path with
    | nil => cases isPath.head
    | cons first rest =>
      cases isPath.head
      exact ⟨rest, rfl⟩
  have last : v ∈ terminal :: rest := List.mem_of_getLast? isPath.last
  obtain ⟨links, length, branch, walked⟩ :=
    Trail.usePath_of_chain named valid rest terminal isPath.chain isPath.nodup
    fun u member => g.adjacency_size ▸ within u member
  have count := isPath.length
  rw [List.length_cons] at count
  refine ⟨1, v :: terminal :: rest, links, ?_, by omega, ?_, ?_, ?_⟩
  · have atLeast : (1 : Int) ≤ (2 ^ i : Nat) := by exact_mod_cast positive
    omega
  · apply (branch.reroot last).of_mem_iff
    intro u
    rw [List.mem_cons, or_iff_right_of_imp]
    rintro rfl
    exact last
  · intro u member
    rw [mem_members_two_pow, found] at member
    cases member
    exact List.mem_cons_of_mem v List.mem_cons_self
  · intro fuel stack trail
    rw [Nat.add_comm]
    exact follow_direct (by omega) ((filled.cellAt_eq below inside).trans (congrArg _ taken)) source traced
      (walked _)

theorem followed_merge (below : mask < 2 ^ terminals.length) (inside : v < g.size) (part : IsPart mask sub)
    {a b : Int} (taken : t.entry g.adjacency.size mask v = ⟨some (a + b), .merge, sub⟩) {spent more : Nat}
    {links others : List Link}
    {vertices beyond : List Nat} (first : Followed g terminals t sub v a spent vertices links)
    (second : Followed g terminals t (mask ^^^ sub) v b more beyond others) :
    Followed g terminals t mask v (a + b) (1 + spent + more) (v :: (vertices ++ beyond))
    (links ++ others) where
  bounded := by
    have total := part.within.add_xor
    have near := first.bounded
    have far := second.bounded
    omega
  count := by
    rw [List.length_append]
    push_cast
    rw [first.count, second.count]
  branch := by
    apply (first.branch.append second.branch first.branch.rooted).of_mem_iff
    intro u
    rw [List.mem_cons, or_iff_right_of_imp]
    rintro rfl
    exact List.mem_append_left _ first.branch.rooted
  holds u member := by
    rcases mem_members_or_rest member sub with near | far
    · exact List.mem_cons_of_mem v (List.mem_append_left _ (first.holds u near))
    · exact List.mem_cons_of_mem v (List.mem_append_right _ (second.holds u far))
  rest fuel stack trail := by
    have nonempty : mask ≠ 0 := fun zero => absurd part.lt (by omega)
    rw [show 1 + spent + more + fuel = spent + (more + fuel) + 1 by omega,
      follow_merge nonempty ((filled.cellAt_eq below inside).trans (congrArg _ taken)), first.rest,
        second.rest, List.map_append]
    simp only [List.append_assoc, List.cons_append, List.nil_append]

theorem followed_move (valid : g.WellFormed) (named : ∀ link ∈ g.links.toList, link.name.isHashable = true)
    (nonempty : mask ≠ 0) (below : mask < 2 ^ terminals.length) (neighbor : v ∈ g.adjacency.getD u [])
    (differ : v ≠ u)
    (taken : t.entry g.adjacency.size mask v = ⟨some (c + 1), .move, u⟩) {spent : Nat} {links : List Link}
    {vertices : List Nat} (before : Followed g terminals t mask u c spent vertices links) :
    ∃ spent vertices links, Followed g terminals t mask v (c + 1) spent vertices links := by
  have edge : s(v, u) ∈ g.edgeSet := Sym2.eq_swap ▸ valid.mem_adjacency_iff.mp neighbor
  obtain ⟨inside, inner⟩ := valid.lt_size edge
  obtain ⟨link, member, pair, used⟩ := Trail.use_of_edge named edge
  refine ⟨1 + spent, v :: u :: vertices, link :: links, ?_, ?_, ?_, ?_, ?_⟩
  · have bounded := before.bounded
    push_cast
    omega
  · rw [List.length_cons]
    push_cast
    rw [before.count]
  · apply (before.branch.cons member pair differ inside).of_mem_iff
    intro w
    rw [List.mem_cons, List.mem_cons, List.mem_cons, @or_iff_right_of_imp (w = u)]
    rintro rfl
    exact before.branch.rooted
  · exact fun w among => List.mem_cons_of_mem v (List.mem_cons_of_mem u (before.holds w among))
  · intro fuel stack trail
    rw [show 1 + spent + fuel = spent + fuel + 1 by omega,
      follow_move nonempty ((filled.cellAt_eq below inside).trans (congrArg _ taken)) inner (used _),
        before.rest]
    simp only [List.append_assoc, List.cons_append, List.nil_append, List.map_cons]

/-- Following a known cell uses as many links as it costs, and they join the vertex to the set. -/
theorem exists_followed (valid : g.WellFormed) (known : ∀ terminal ∈ terminals, terminal < g.size)
    (named : ∀ link ∈ g.links.toList, link.name.isHashable = true) (nonempty : mask ≠ 0)
    (below : mask < 2 ^ terminals.length) (inside : v < g.size) (cost : t.cost g mask v = some c) :
    ∃ spent vertices links, Followed g terminals t mask v c spent vertices links := by
  revert nonempty
  refine filled.induction (P := fun mask v c => mask ≠ 0 →
    ∃ spent vertices links, Followed g terminals t mask v c spent vertices links) ?direct ?merge ?move below
    (g.adjacency_size ▸ inside) cost
  case direct =>
    intro i terminal v visit found inside reached taken _
    exact filled.followed_direct valid known named found (g.adjacency_size ▸ inside) reached taken
  case merge =>
    intro mask sub v a b below inside part taken first second _
    obtain ⟨spent, vertices, links, near⟩ := first part.nonempty
    obtain ⟨more, beyond, others, far⟩ := second part.rest.nonempty
    exact ⟨_, _, _, filled.followed_merge below (g.adjacency_size ▸ inside) part taken near far⟩
  case move =>
    intro mask u v c below _ _ neighbor taken before ih nonempty
    obtain ⟨spent, vertices, links, followed⟩ := ih nonempty
    have differ : v ≠ u := by
      rintro rfl
      rw [taken] at before
      have same := Option.some.inj before
      omega
    exact filled.followed_move valid named nonempty below neighbor differ taken followed

end Marks

end Table.FilledTo

end SteinerTrees
