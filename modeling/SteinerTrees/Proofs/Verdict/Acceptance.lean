import SteinerTrees.Proofs.Verdict.Candidate

/-! # Accepted solutions

A check accepts a solution exactly if every rule holds of it. Then its plain graph copies edges of the graph of
the instance that join all its terminals, and its objective is no less than their number if it lists its edges,
and no less than the number of its vertices, less one, if it does not. -/

namespace SteinerTrees.Solution

variable {g : Graph} {s tree : Skeleton} {problem solution body : Value} {terminals vertices : List Value}
  {listed : Bool}
  {size u : Nat}

/-! ## The rules -/

/-- An objection accepts nothing. -/
theorem against_ne_feasible {objection : Objection} {edges : Nat} :
    Verdict.against objection edges ≠ .ok (.feasible size) := by
  unfold Verdict.against
  split <;> exact nofun

theorem judge_eq_feasible_iff : judge solution listed tree = .ok (.feasible size) ↔
    (tree.size ≠ 0 → tree.isConnected = true) ∧ (listed = true → tree.size ≠ 0 → tree.isTree = true) ∧
      objective solution = .ok size := by
  rw [judge]
  split_ifs with apart cyclic
  · rw [Bool.not_eq_true'] at apart
    constructor
    · intro read
      cases read
    · exact fun both => absurd (both.1 apart.1) (by rw [apart.2]; exact Bool.false_ne_true)
  · rw [Bool.not_eq_true'] at cyclic
    constructor
    · intro read
      cases read
    · exact fun both => absurd (both.2.1 cyclic.1 cyclic.2.1) (by rw [cyclic.2.2]; exact Bool.false_ne_true)
  · rw [Bool.not_eq_true', not_and, Bool.not_eq_false] at apart
    rw [Bool.not_eq_true', not_and, not_and, Bool.not_eq_false] at cyclic
    rw [bind_eq_ok_iff]
    constructor
    · rintro ⟨count, counted, same⟩
      cases same
      exact ⟨apart, cyclic, counted⟩
    · exact fun both => ⟨size, both.2.2, rfl⟩

/-- The plain graph by which a solution is judged: on its vertices, with the edges that it lists, or with all. -/
def Draws (s : Skeleton) (body : Value) (vertices : List Value) (tree : Skeleton) : Bool → Prop
  | true => ∃ edges entries, body.field "edges" = .ok edges ∧ edges.items = .ok entries ∧
      addListed s vertices { nodes := vertices.toArray } entries = .ok (.inl tree)
  | false => s.induced vertices = tree

/-- What a solution has to be: its vertices hold the terminals and are nodes of the instance, and its plain graph
is connected, and a tree if its edges are listed. -/
structure Meets (s : Skeleton) (terminals : List Value) (solution body : Value) (vertices : List Value)
    (listed : Bool) (tree : Skeleton) (size : Nat) : Prop where
  inner : Solution.body solution = .ok body
  distinct : (body.get "vertices" (.list []) >>= Value.asSet) = .ok vertices
  complete : ∀ terminal ∈ terminals, terminal.isIn vertices = true
  known : ∀ vertex ∈ vertices, s.contains vertex = true
  lists : listsEdges body = .ok listed
  draws : Draws s body vertices tree listed
  judged : judge solution listed tree = .ok (.feasible size)

private theorem filter_not_eq_nil_iff {values : List Value} {p : Value → Bool} :
    (values.filter fun value => !p value) = [] ↔ ∀ value ∈ values, p value = true := by
  rw [List.filter_eq_nil_iff]
  exact forall₂_congr fun value _ => by rw [Bool.not_eq_true', Bool.not_eq_false]

/-- An accepted solution meets all rules, on an instance that can be read. -/
theorem exists_meets_of_feasible (accepted : check problem solution = .ok (.feasible size)) :
    ∃ s terminals body vertices listed tree, Skeleton.ofInstance problem = .ok s ∧
      (problem.get "terminals" (.list []) >>= Value.asSet) = .ok terminals ∧
      Meets s terminals solution body vertices listed tree size := by
  obtain ⟨body, inner, accepted⟩ := bind_eq_ok_iff.mp accepted
  obtain ⟨named, found, accepted⟩ := bind_eq_ok_iff.mp accepted
  obtain ⟨vertices, set, accepted⟩ := bind_eq_ok_iff.mp accepted
  obtain ⟨query, wanted, accepted⟩ := bind_eq_ok_iff.mp accepted
  obtain ⟨terminals, chosen, accepted⟩ := bind_eq_ok_iff.mp accepted
  have distinct : (body.get "vertices" (.list []) >>= Value.asSet) = .ok vertices :=
    bind_eq_ok_iff.mpr ⟨named, found, set⟩
  have asked : (problem.get "terminals" (.list []) >>= Value.asSet) = .ok terminals :=
    bind_eq_ok_iff.mpr ⟨query, wanted, chosen⟩
  split at accepted
  · exact absurd accepted against_ne_feasible
  rename_i complete
  obtain ⟨nodes, listing, accepted⟩ := bind_eq_ok_iff.mp accepted
  obtain ⟨members, items, accepted⟩ := bind_eq_ok_iff.mp accepted
  obtain ⟨middle, first, accepted⟩ := bind_eq_ok_iff.mp accepted
  obtain ⟨links, linking, accepted⟩ := bind_eq_ok_iff.mp accepted
  obtain ⟨entries, described, accepted⟩ := bind_eq_ok_iff.mp accepted
  obtain ⟨graph, second, accepted⟩ := bind_eq_ok_iff.mp accepted
  have read : Skeleton.ofInstance problem = .ok graph := by
    simp only [Skeleton.ofInstance, listing, items, bind, Except.bind, first, linking, described, second]
  split at accepted
  · exact absurd accepted against_ne_feasible
  rename_i known
  rw [filter_not_eq_nil_iff] at complete known
  obtain ⟨listed, lists, accepted⟩ := bind_eq_ok_iff.mp accepted
  cases listed with
  | true =>
    obtain ⟨edges, field, accepted⟩ := bind_eq_ok_iff.mp accepted
    obtain ⟨entries, items, accepted⟩ := bind_eq_ok_iff.mp accepted
    obtain ⟨outcome, added, accepted⟩ := bind_eq_ok_iff.mp accepted
    cases outcome with
    | inr objection => exact absurd accepted against_ne_feasible
    | inl tree =>
      have draws : Draws graph body vertices tree true := ⟨edges, entries, field, items, added⟩
      exact ⟨graph, terminals, body, vertices, true, tree, read, asked, inner, distinct, complete, known, lists, draws,
        accepted⟩
  | false =>
    exact ⟨graph, terminals, body, vertices, false, _, read, asked, inner, distinct, complete, known, lists, rfl,
      accepted⟩

theorem exists_meets_of_check (read : Skeleton.ofInstance problem = .ok s)
    (asked : (problem.get "terminals" (.list []) >>= Value.asSet) = .ok terminals)
    (accepted : check problem solution = .ok (.feasible size)) :
    ∃ body vertices listed tree, Meets s terminals solution body vertices listed tree size := by
  obtain ⟨graph, labels, body, vertices, listed, tree, taken, wanted, meets⟩ := exists_meets_of_feasible accepted
  cases read.symm.trans taken
  cases asked.symm.trans wanted
  exact ⟨body, vertices, listed, tree, meets⟩

/-- Whether a verdict accepts a solution with some number of edges. -/
def accepts (size : Nat) : Verdict → Bool
  | .feasible edges => edges == size
  | .infeasible .. => false

theorem check_eq_of_accepts
    (accepted : (check problem solution).toOption.any (accepts size) = true) :
    check problem solution = .ok (.feasible size) := by
  cases judged : check problem solution with
  | error failure =>
    rw [judged] at accepted
    cases accepted
  | ok verdict =>
    rw [judged] at accepted
    cases verdict with
    | feasible edges => rw [beq_iff_eq.mp accepted]
    | infeasible objection edges => cases accepted

/-- A solution that meets all rules is accepted. -/
theorem Meets.check_eq (meets : Meets s terminals solution body vertices listed tree size)
    (read : Skeleton.ofInstance problem = .ok s)
    (asked : (problem.get "terminals" (.list []) >>= Value.asSet) = .ok terminals) :
    check problem solution = .ok (.feasible size) := by
  obtain ⟨named, found, set⟩ := bind_eq_ok_iff.mp meets.distinct
  obtain ⟨query, wanted, chosen⟩ := bind_eq_ok_iff.mp asked
  obtain ⟨nodes, listing, read⟩ := bind_eq_ok_iff.mp read
  obtain ⟨members, items, read⟩ := bind_eq_ok_iff.mp read
  obtain ⟨middle, first, read⟩ := bind_eq_ok_iff.mp read
  obtain ⟨links, linking, read⟩ := bind_eq_ok_iff.mp read
  obtain ⟨entries, described, second⟩ := bind_eq_ok_iff.mp read
  have complete := filter_not_eq_nil_iff.mpr meets.complete
  have known := filter_not_eq_nil_iff.mpr meets.known
  have judged := meets.judged
  have draws := meets.draws
  simp only [check, meets.inner, found, set, wanted, chosen, complete, listing, items, first, linking,
    described, second, known, meets.lists, bind, Except.bind]
  cases listed with
  | true =>
    obtain ⟨edges, entries, field, items, added⟩ := draws
    simp only [field, items, added, ↓reduceIte, judged]
  | false =>
    rw [← draws] at judged
    exact judged

/-! ## The edges of an accepted solution -/

/-- A plain graph copies edges of a graph, and its nodes stand for the vertices that some labels name. -/
structure Covers (g : Graph) (vertices : List Value) (tree : Skeleton) (edges : Edges) : Prop where
  copies : tree.Copies g edges
  subset : edges ⊆ g.edgeSet
  fits : tree.size ≤ vertices.length
  holds : ∀ a u, a.isIn vertices = true → g.indexOf? a = some u → ∃ i < tree.size, tree.place g i = u

theorem subset_of_listed {entries : List Value} {pairs : List (Sym2 Nat)}
    (listed : List.Forall₂ (IsListed g vertices) entries pairs) : pairs.toFinset ⊆ g.edgeSet := by
  induction listed with
  | nil => exact Finset.empty_subset _
  | cons first _ ih =>
    rw [List.toFinset_cons]
    obtain ⟨-, -, -, -, -, edge, -, -⟩ := first
    exact Finset.insert_subset edge ih

theorem covers_of_listed {entries : List Value} {pairs : List (Sym2 Nat)} (mirrors : s.Mirrors g)
    (distinct : (vertices.map Value.key).Nodup) (known : ∀ vertex ∈ vertices, g.indexOf? vertex ≠ none)
    (listed : List.Forall₂ (IsListed g vertices) entries pairs) :
    ∃ tree, addListed s vertices { nodes := vertices.toArray } entries = .ok (.inl tree) ∧
      tree.nodes = vertices.toArray ∧ Covers g vertices tree pairs.toFinset := by
  obtain ⟨tree, added, nodes, copies⟩ :=
    addListed_of_listed mirrors listed (Skeleton.copies_nodes distinct known) rfl
  rw [Finset.empty_union] at copies
  refine ⟨tree, added, nodes, copies, subset_of_listed listed, ?_, ?_⟩
  · rw [Skeleton.size, nodes, List.size_toArray]
  · intro a u among found
    obtain ⟨i, inside, -, same⟩ := Skeleton.exists_place (s := tree) (by rw [nodes]; exact among) found
    exact ⟨i, inside, same⟩

theorem covers_of_induced (mirrors : s.Mirrors g) (valid : g.WellFormed) (vertices : List Value) :
    ∃ edges, Covers g vertices (s.induced vertices) edges := by
  obtain ⟨nodes, edges, subset, copies⟩ := induced_copies mirrors valid vertices
  refine ⟨edges, copies, subset, ?_, ?_⟩
  · have labels : ((s.nodes.toList.filter (·.isIn vertices)).map Value.key).Nodup := by
      rw [mirrors.nodes]
      exact valid.labels.sublist (List.filter_sublist.map _)
    have among : (s.nodes.toList.filter (·.isIn vertices)).map Value.key ⊆ vertices.map Value.key := by
      intro key member
      obtain ⟨label, kept, rfl⟩ := List.mem_map.mp member
      exact Value.isIn_iff.mp (List.mem_filter.mp kept).2
    have fewer := labels.length_le_of_subset among
    rwa [List.length_map, List.length_map, ← List.size_toArray, ← nodes] at fewer
  · intro a u among found
    obtain ⟨inside, same⟩ := Graph.indexOf?_spec found
    have kept : g.label u ∈ s.nodes.toList.filter (·.isIn vertices) := by
      rw [List.mem_filter, mirrors.nodes, Graph.label_eq inside]
      refine ⟨Array.mem_toList_iff.mpr (Array.getElem_mem inside), ?_⟩
      rw [← Graph.label_eq inside, Value.isIn_iff, same]
      exact Value.isIn_iff.mp among
    have member : a.isIn (s.induced vertices).nodes.toList = true := by
      rw [nodes, Value.isIn_iff]
      exact List.mem_map.mpr ⟨_, kept, same⟩
    obtain ⟨i, inside, -, place⟩ := Skeleton.exists_place member found
    exact ⟨i, inside, place⟩

/-- A connected plain graph joins what its labels name, by no more edges than it copies, and by fewer than labels. -/
theorem Covers.exists_few {edges : Edges} (covers : Covers g vertices tree edges)
    (connected : tree.size ≠ 0 → tree.isConnected = true) :
    ∃ few ⊆ edges, few.card ≤ vertices.length - 1 ∧
      ∀ a b u v, a.isIn vertices = true → b.isIn vertices = true →
      g.indexOf? a = some u → g.indexOf? b = some v → Joined few u v := by
  by_cases empty : tree.size = 0
  · refine ⟨∅, Finset.empty_subset _, Nat.zero_le _, ?_⟩
    intro a b u v among _ found _
    obtain ⟨i, inside, -⟩ := covers.holds a u among found
    omega
  · have joined := (covers.copies.isConnected_iff (Nat.pos_of_ne_zero empty)).mp (connected empty)
    set places := (Finset.range tree.size).image (tree.place g)
    have place : ∀ i < tree.size, tree.place g i ∈ places :=
      fun i inside => Finset.mem_image_of_mem _ (Finset.mem_range.mpr inside)
    have joins : JoinsAll edges places := by
      intro u first v second
      obtain ⟨i, left, rfl⟩ := Finset.mem_image.mp first
      obtain ⟨j, right, rfl⟩ := Finset.mem_image.mp second
      exact joined i (Finset.mem_range.mp left) j (Finset.mem_range.mp right)
    have within : ∀ edge ∈ edges, ∀ v ∈ edge, v ∈ places := by
      intro edge member v endpoint
      obtain ⟨i, inside, rfl⟩ := covers.copies.edges_within edge member v endpoint
      exact place i inside
    obtain ⟨few, subset, spanning⟩ :=
      joins.exists_spanning_tree ⟨_, place 0 (Nat.pos_of_ne_zero empty)⟩ within
    refine ⟨few, subset, ?_, ?_⟩
    · have count := spanning.count
      have fewer : places.card ≤ tree.size := Finset.card_image_le.trans (Finset.card_range _).le
      have fits := covers.fits
      omega
    · intro a b u v left right start stop
      obtain ⟨i, first, rfl⟩ := covers.holds a u left start
      obtain ⟨j, second, rfl⟩ := covers.holds b v right stop
      exact spanning.joins _ (place i first) _ (place j second)

/-! ## The objective -/

theorem objective_of_listed {edges : Value} {entries : List Value} {pairs : List (Sym2 Nat)}
    (inner : Solution.body solution = .ok body) (lists : listsEdges body = .ok true)
    (field : body.field "edges" = .ok edges)
    (items : edges.items = .ok entries) (listed : List.Forall₂ (IsListed g vertices) entries pairs) :
    objective solution = .ok pairs.toFinset.card := by
  obtain ⟨sets, read, related⟩ := exists_sets_of_listed listed
  simp only [objective, inner, lists, field, items, read, bind, Except.bind, ↓reduceIte,
    length_distinctSets related]
  rfl

theorem objective_of_unlisted {members : List Value} (inner : Solution.body solution = .ok body)
    (lists : listsEdges body = .ok false) (listed : body.get "vertices" (.list []) >>= Value.items = .ok members) :
    objective solution = .ok (members.length - 1) := by
  obtain ⟨named, found, read⟩ := bind_eq_ok_iff.mp listed
  simp only [objective, inner, lists, found, Value.length_of_items read, bind, Except.bind, Bool.false_eq_true,
    ↓reduceIte]
  rfl

namespace Meets

theorem objective (meets : Meets s terminals solution body vertices listed tree size) :
    Solution.objective solution = .ok size :=
  (judge_eq_feasible_iff.mp meets.judged).2.2

/-- The vertices that count are the first occurrences of those that are listed. -/
theorem exists_members (meets : Meets s terminals solution body vertices listed tree size) :
    ∃ members, body.get "vertices" (.list []) >>= Value.items = .ok members ∧
      (∀ member ∈ members, member.isHashable = true) ∧ vertices = Value.distinct members := by
  obtain ⟨named, found, set⟩ := bind_eq_ok_iff.mp meets.distinct
  obtain ⟨members, items, hashable, same⟩ := Value.asSet_eq_ok_iff.mp set
  exact ⟨members, bind_eq_ok_iff.mpr ⟨named, found, items⟩, hashable, same⟩

/-- The plain graph of listed edges covers the vertices by as many edges as the objective. -/
theorem exists_covers_of_listed (meets : Meets s terminals solution body vertices true tree size)
    (mirrors : s.Mirrors g) :
    ∃ edges, Covers g vertices tree edges ∧ tree.nodes = vertices.toArray ∧ edges.card = size := by
  obtain ⟨edges, entries, field, items, added⟩ := meets.draws
  obtain ⟨pairs, listed⟩ := exists_pairs_of_addListed mirrors added
  have distinct : (vertices.map Value.key).Nodup := by
    obtain ⟨members, -, -, rfl⟩ := meets.exists_members
    exact Value.nodup_key_distinct members
  have known : ∀ vertex ∈ vertices, g.indexOf? vertex ≠ none := by
    intro vertex member absent
    have contained := meets.known vertex member
    rw [Skeleton.contains, mirrors.indexOf?, absent] at contained
    cases contained
  obtain ⟨other, again, nodes, covers⟩ := covers_of_listed mirrors distinct known listed
  rw [added] at again
  cases again
  have counted := meets.objective
  rw [objective_of_listed meets.inner meets.lists field items listed] at counted
  exact ⟨_, covers, nodes, Except.ok.inj counted⟩

/-- The plain graph of an accepted solution covers its vertices. Its objective is the number of the edges that it
lists, or no less than the number of its vertices, less one. -/
theorem exists_covers (meets : Meets s terminals solution body vertices listed tree size)
    (mirrors : s.Mirrors g) (valid : g.WellFormed) : ∃ edges, Covers g vertices tree edges ∧
    (edges.card ≤ size ∨ vertices.length - 1 ≤ size) := by
  cases listed with
  | true =>
    obtain ⟨edges, covers, -, count⟩ := meets.exists_covers_of_listed mirrors
    exact ⟨edges, covers, .inl count.le⟩
  | false =>
    have draws : s.induced vertices = tree := meets.draws
    obtain ⟨edges, covers⟩ := covers_of_induced mirrors valid vertices
    obtain ⟨members, read, -, same⟩ := meets.exists_members
    have count := Except.ok.inj (meets.objective.symm.trans (objective_of_unlisted meets.inner meets.lists read))
    have fewer := (Value.distinctFrom_sublist [] members).length_le
    rw [← Value.distinct, ← same] at fewer
    exact ⟨edges, draws ▸ covers, .inr (by omega)⟩

/-- Edges of the graph, no more than the objective of an accepted solution, join what the terminals name. -/
theorem exists_few (meets : Meets s terminals solution body vertices listed tree size) (mirrors : s.Mirrors g)
    (valid : g.WellFormed) : ∃ few ⊆ g.edgeSet, few.card ≤ size ∧ ∀ a ∈ terminals, ∀ b ∈ terminals, ∀ u v,
      g.indexOf? a = some u → g.indexOf? b = some v → Joined few u v := by
  obtain ⟨edges, covers, bound⟩ := meets.exists_covers mirrors valid
  obtain ⟨few, subset, count, joined⟩ := covers.exists_few (judge_eq_feasible_iff.mp meets.judged).1
  refine ⟨few, subset.trans covers.subset, ?_, ?_⟩
  · have fewer := Finset.card_le_card subset
    omega
  · exact fun a first b second u v => joined a b u v (meets.complete a first) (meets.complete b second)

end Meets

end SteinerTrees.Solution
