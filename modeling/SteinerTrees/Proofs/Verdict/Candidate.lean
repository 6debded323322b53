import SteinerTrees.Proofs.Graph.Mirror
import SteinerTrees.Verdict

/-! # The plain graph of a solution

A solution is judged by a plain graph on its vertices: the edges that it lists, or all edges of the instance
between them. Either is a copy of a part of the graph of the instance. Listed edges count once whatever their
order, their orientation and their number. -/

namespace SteinerTrees

variable {g : Graph} {s tree result : Skeleton} {edges : Edges}
  {vertices entries labels set other : List Value}
  {pairs : List (Sym2 Nat)} {pair edge : Sym2 Nat} {a b entry : Value} {u v : Nat}

/-! ## Labels as nodes -/

namespace Skeleton

theorem node_eq {i : Nat} (inside : i < s.size) : s.node i = getElem s.nodes i inside :=
  Graph.label_eq (g := s.toGraph) inside

theorem indexOf?_spec {i : Nat} (found : s.indexOf? a = some i) : i < s.size ∧ (s.node i).key = a.key :=
  Graph.indexOf?_spec (g := s.toGraph) found

/-- Labels of different vertices, without pairs. -/
theorem copies_nodes (distinct : (labels.map Value.key).Nodup)
    (known : ∀ label ∈ labels, g.indexOf? label ≠ none) :
    ({ nodes := labels.toArray } : Skeleton).Copies g ∅ := by
  refine ⟨wellFormed_of_nodes distinct, ?_, ?_⟩
  · intro i inside
    have member : ({ nodes := labels.toArray } : Skeleton).node i ∈ labels := by
      rw [node_eq inside]
      exact List.mem_toArray.mp (Array.getElem_mem inside)
    obtain ⟨v, found⟩ := Option.ne_none_iff_exists'.mp (known _ member)
    rw [place, found]
    rfl
  · rw [edgeSet_of_nodes, Finset.image_empty]

theorem place_of_indexOf? {i : Nat} (here : s.indexOf? a = some i) (found : g.indexOf? a = some u) :
    s.place g i = u := by
  rw [place, Graph.indexOf?_congr (indexOf?_spec here).2, found]
  rfl

/-- The node that has a label stands for the vertex that has it. -/
theorem exists_place (member : a.isIn s.nodes.toList = true) (found : g.indexOf? a = some u) :
    ∃ i < s.size, s.indexOf? a = some i ∧ s.place g i = u := by
  cases here : s.indexOf? a with
  | none =>
    obtain ⟨b, among, same⟩ := List.mem_map.mp (Value.isIn_iff.mp member)
    obtain ⟨i, inside, rfl⟩ := Array.mem_iff_getElem.mp (Array.mem_toList_iff.mp among)
    rw [← node_eq inside] at same
    exact absurd same (Graph.indexOf?_eq_none_iff (g := s.toGraph).mp here i inside)
  | some i => exact ⟨i, (indexOf?_spec here).1, rfl, place_of_indexOf? here found⟩

end Skeleton

/-! ## Listed edges -/

/-- An entry of a solution lists an edge of a graph by two of the labels of the solution. -/
inductive IsListed (g : Graph) (vertices : List Value) : Value → Sym2 Nat → Prop
  | intro {entry a b : Value} {u v : Nat} :
  entry.asPair = .ok (a, b) → a.isHashable = true → b.isHashable = true →
      g.indexOf? a = some u → g.indexOf? b = some v → s(u, v) ∈ g.edgeSet →
      a.isIn vertices = true → b.isIn vertices = true → IsListed g vertices entry s(u, v)

namespace Solution

/-- What is added entry by entry lists edges. -/
theorem exists_pairs_of_addListed (mirrors : s.Mirrors g)
    (added : addListed s vertices tree entries = .ok (.inl result)) :
    ∃ pairs, List.Forall₂ (IsListed g vertices) entries pairs := by
  induction entries generalizing tree with
  | nil => exact ⟨[], .nil⟩
  | cons entry rest ih =>
    rw [addListed] at added
    obtain ⟨⟨a, b⟩, read, added⟩ := bind_eq_ok_iff.mp added
    obtain ⟨joined, checked, added⟩ := bind_eq_ok_iff.mp added
    split at added
    · cases added
    · rename_i foreign
      split at added
      · cases added
      · rename_i stray
        rw [Bool.not_eq_true', Bool.not_eq_false] at foreign
        rw [Bool.or_eq_true, Bool.not_eq_true', Bool.not_eq_true', not_or, Bool.not_eq_false,
          Bool.not_eq_false] at stray
        rw [foreign] at checked
        obtain ⟨first, second, u, v, start, stop, edge⟩ := mirrors.hasEdge_iff.mp checked
        obtain ⟨next, -, others⟩ := bind_eq_ok_iff.mp added
        obtain ⟨pairs, listed⟩ := ih others
        exact ⟨s(u, v) :: pairs, .cons (.intro read first second start stop edge stray.1 stray.2) listed⟩

/-- Entries that list edges are added to a copy, and make it a copy with these edges. -/
theorem addListed_of_listed (mirrors : s.Mirrors g)
    (listed : List.Forall₂ (IsListed g vertices) entries pairs)
    (copies : tree.Copies g edges) (nodes : tree.nodes = vertices.toArray) :
    ∃ result, addListed s vertices tree entries = .ok (.inl result) ∧ result.nodes = vertices.toArray ∧
      result.Copies g (edges ∪ pairs.toFinset) := by
  induction listed generalizing tree edges with
  | nil =>
    rw [List.toFinset_nil, Finset.union_empty]
    exact ⟨tree, rfl, nodes, copies⟩
  | @cons entry pair rest pairs first _ ih =>
    obtain ⟨read, left, right, start, stop, edge, source, target⟩ := first
    rename_i a b u v
    have among : tree.nodes.toList = vertices := by rw [nodes]
    obtain ⟨i, first, here, origin⟩ := Skeleton.exists_place (among ▸ source) start
    obtain ⟨j, second, there, goal⟩ := Skeleton.exists_place (among ▸ target) stop
    have joined := copies.join first second (a, b)
    rw [origin, goal] at joined
    obtain ⟨result, added, same, last⟩ := ih joined ((tree.nodes_join _).trans nodes)
    refine ⟨result, ?_, same, ?_⟩
    · have paired := mirrors.hasEdge_iff.mpr ⟨left, right, u, v, start, stop, edge⟩
      simp only [addListed, read, paired, bind, Except.bind, source, target, Bool.not_true, Bool.or_self,
        Bool.false_eq_true, ↓reduceIte, Skeleton.addPair_of_contains left right here there, added]
    · rwa [List.toFinset_cons, Finset.union_insert, ← Finset.insert_union]

/-! ## Counting edges -/

/-- A set of labels has the two ends of a pair of vertices. -/
structure HasEnds (g : Graph) (set : List Value) (pair : Sym2 Nat) : Prop where
  known : ∀ label ∈ set, ∃ u ∈ pair, g.indexOf? label = some u
  ends : ∀ u ∈ pair, ∃ label ∈ set, g.indexOf? label = some u

theorem HasEnds.all_isIn_iff (first : HasEnds g set pair) (second : HasEnds g other edge) :
    set.all (·.isIn other) = true ↔ ∀ u ∈ pair, u ∈ edge := by
  rw [List.all_eq_true]
  constructor
  · intro inside u endpoint
    obtain ⟨a, member, here⟩ := first.ends u endpoint
    obtain ⟨b, among, same⟩ := List.mem_map.mp (Value.isIn_iff.mp (inside a member))
    obtain ⟨v, endpoint, there⟩ := second.known b among
    rw [Graph.indexOf?_congr same, here] at there
    rwa [Option.some.inj there]
  · intro inside a member
    obtain ⟨u, endpoint, here⟩ := first.known a member
    obtain ⟨b, among, there⟩ := second.ends u (inside u endpoint)
    have same : b.key = a.key := (Graph.indexOf?_spec there).2.symm.trans (Graph.indexOf?_spec here).2
    exact Value.isIn_iff.mpr (List.mem_map.mpr ⟨b, among, same⟩)

/-- Two sets are equal exactly if they have the ends of one pair. -/
theorem HasEnds.sameMembers_iff (first : HasEnds g set pair) (second : HasEnds g other edge) :
    sameMembers set other = true ↔ pair = edge := by
  rw [sameMembers, Bool.and_eq_true, first.all_isIn_iff second, second.all_isIn_iff first]
  constructor
  · exact fun both => Sym2.ext fun u => ⟨both.1 u, both.2 u⟩
  · rintro rfl
    exact ⟨fun _ endpoint => endpoint, fun _ endpoint => endpoint⟩

theorem hasEnds_of_listed (listed : IsListed g vertices entry pair) :
    ∃ set, entry.asSet = .ok set ∧ HasEnds g set pair := by
  obtain ⟨read, left, right, start, stop, -, -, -⟩ := listed
  rename_i a b u v
  refine ⟨Value.distinct [a, b], Value.asSet_eq_ok_iff.mpr ⟨[a, b], Value.asPair_eq_ok_iff.mp read, ?_, rfl⟩,
    ?_, ?_⟩
  · intro label member
    rcases List.mem_pair.mp member with rfl | rfl
    · exact left
    · exact right
  · intro label member
    rcases List.mem_pair.mp (Value.mem_of_mem_distinct member) with rfl | rfl
    · exact ⟨u, Sym2.mem_mk_left u v, start⟩
    · exact ⟨v, Sym2.mem_mk_right u v, stop⟩
  · intro w endpoint
    have named : ∃ label ∈ [a, b], g.indexOf? label = some w := by
      rcases Sym2.mem_iff.mp endpoint with rfl | rfl
      · exact ⟨a, List.mem_cons_self, start⟩
      · exact ⟨b, List.mem_cons_of_mem a List.mem_cons_self, stop⟩
    obtain ⟨label, member, here⟩ := named
    obtain ⟨kept, first, same⟩ := Value.exists_mem_distinct member
    exact ⟨kept, first, (Graph.indexOf?_congr same).trans here⟩

theorem exists_sets_of_listed (listed : List.Forall₂ (IsListed g vertices) entries pairs) :
    ∃ sets, entries.mapM Value.asSet = .ok sets ∧ List.Forall₂ (HasEnds g) sets pairs := by
  induction listed with
  | nil => exact ⟨[], rfl, .nil⟩
  | cons first _ ih =>
    obtain ⟨set, read, ends⟩ := hasEnds_of_listed first
    obtain ⟨sets, others, related⟩ := ih
    refine ⟨set :: sets, ?_, .cons ends related⟩
    simp only [List.mapM_cons, read, others, bind, Except.bind]
    rfl

/-- The sets that are kept have the ends of each pair once. -/
theorem exists_distinctSets {sets : List (List Value)} (related : List.Forall₂ (HasEnds g) sets pairs) :
    ∃ kept, List.Forall₂ (HasEnds g) (distinctSets sets) kept ∧ kept.Nodup ∧
      kept.toFinset = pairs.toFinset := by
  induction related with
  | nil => exact ⟨[], .nil, List.nodup_nil, rfl⟩
  | @cons set pair sets pairs ends _ ih =>
    obtain ⟨kept, related, nodup, same⟩ := ih
    have rest : List.Forall₂ (HasEnds g) ((distinctSets sets).filter fun other => !sameMembers set other)
        (kept.filter (· ≠ pair)) := by
      refine List.rel_filter ?_ related
      intro other edge found
      change (!sameMembers set other) = true ↔ decide (edge ≠ pair) = true
      rw [Bool.not_eq_true', ← Bool.not_eq_true, ends.sameMembers_iff found, decide_eq_true_eq, ne_comm]
    refine ⟨pair :: kept.filter (· ≠ pair), .cons ends rest, List.nodup_cons.mpr ⟨?_, nodup.filter _⟩, ?_⟩
    · exact fun again => of_decide_eq_true (List.mem_filter.mp again).2 rfl
    · ext edge
      rw [List.toFinset_cons, List.toFinset_cons, ← same]
      simp only [Finset.mem_insert, List.mem_toFinset, List.mem_filter, decide_eq_true_eq]
      tauto

/-- Listed edges count once each. -/
theorem length_distinctSets {sets : List (List Value)} (related : List.Forall₂ (HasEnds g) sets pairs) :
    (distinctSets sets).length = pairs.toFinset.card := by
  obtain ⟨kept, related, nodup, same⟩ := exists_distinctSets related
  rw [related.length_eq, ← same, List.toFinset_card_of_nodup nodup]

/-! ## All edges between the vertices -/

/-- Bonds of a plain graph whose nodes are vertices of a graph are joined in a copy as edges of the graph. -/
theorem foldl_inside (mirrors : s.Mirrors g) (valid : g.WellFormed) {bonds : List Bond}
    (within : ∀ bond ∈ bonds, s(bond.ends.1, bond.ends.2) ∈ g.edgeSet) (copies : tree.Copies g edges)
    (subset : edges ⊆ g.edgeSet) (folded : bonds.foldl (fun inside bond =>
      match inside.indexOf? (s.node bond.ends.1), inside.indexOf? (s.node bond.ends.2) with
      | some u, some v => inside.join ⟨(u, v), bond.labels⟩
      | _, _ => inside) tree = result) :
    result.nodes = tree.nodes ∧ ∃ edges ⊆ g.edgeSet, result.Copies g edges := by
  induction bonds generalizing tree edges with
  | nil =>
    cases folded
    exact ⟨rfl, edges, subset, copies⟩
  | cons bond rest ih =>
    have others : ∀ bond ∈ rest, s(bond.ends.1, bond.ends.2) ∈ g.edgeSet :=
      fun other member => within other (List.mem_cons_of_mem _ member)
    have edge := within bond List.mem_cons_self
    have vertex : ∀ v < g.size, g.indexOf? (s.node v) = some v := by
      intro v inside
      rw [Skeleton.node, mirrors.nodes]
      exact valid.indexOf?_label inside
    rw [List.foldl_cons] at folded
    split at folded
    · rename_i u v start stop
      have joined := copies.join (Skeleton.indexOf?_spec start).1 (Skeleton.indexOf?_spec stop).1 bond.labels
      rw [Skeleton.place_of_indexOf? start (vertex _ (valid.lt_size edge).1),
        Skeleton.place_of_indexOf? stop (vertex _ (valid.lt_size edge).2)] at joined
      have ended := ih others joined (Finset.insert_subset edge subset) folded
      rwa [tree.nodes_join] at ended
    · exact ih others copies subset folded

/-- The plain graph on some labels copies edges of the graph. -/
theorem induced_copies (mirrors : s.Mirrors g) (valid : g.WellFormed) (labels : List Value) :
    (s.induced labels).nodes = (s.nodes.toList.filter (·.isIn labels)).toArray ∧
      ∃ edges ⊆ g.edgeSet, (s.induced labels).Copies g edges := by
  have start : ({ nodes := (s.nodes.toList.filter (·.isIn labels)).toArray } : Skeleton).Copies g ∅ := by
    apply Skeleton.copies_nodes
    · rw [mirrors.nodes]
      exact valid.labels.sublist (List.filter_sublist.map _)
    · intro label member absent
      have old := (List.mem_filter.mp member).1
      rw [mirrors.nodes] at old
      obtain ⟨v, inside, rfl⟩ := Array.mem_iff_getElem.mp (Array.mem_toList_iff.mp old)
      rw [← Graph.label_eq inside, valid.indexOf?_label inside] at absent
      cases absent
  have within : ∀ bond ∈ s.bonds.toList, s(bond.ends.1, bond.ends.2) ∈ g.edgeSet := by
    intro bond member
    rw [← mirrors.edges]
    exact Skeleton.mem_edgeSet_toGraph_iff.mpr ⟨bond, member, rfl⟩
  exact foldl_inside mirrors valid within start (Finset.empty_subset _) rfl

end Solution

end SteinerTrees
