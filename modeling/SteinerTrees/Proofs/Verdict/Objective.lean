import SteinerTrees.Proofs.Verdict.Decision

/-! # The objective of accepted solutions

An accepted solution that lists edges has as many different ones as a tree on its vertices, in whatever order,
orientation and number it lists them. A solution without edges is counted by the vertices that it lists, so its
objective is that of a tree exactly if it lists no vertex twice. -/

namespace SteinerTrees

open Value (keys bonds)

variable {s tree result : Skeleton} {problem solution body : Value} {terminals vertices entries : List Value}
  {pairs : List (Value × Value)} {pairs? : Option (List (Value × Value))} {joined : Set (Sym2 Key)} {size : Nat}

namespace Value

theorem ncard_keys (labels : List Value) : (keys labels).ncard = (distinct labels).length := by
  rw [← keys_distinct, ← Nat.card_coe_set_eq, (Skeleton.Depicts.of_labels (nodup_key_distinct labels)).card_vertices,
    Skeleton.size, List.size_toArray]

/-- Labels are no more than one for each key exactly if none is repeated. -/
theorem length_pred_eq_ncard_keys_iff (labels : List Value) :
    labels.length - 1 = (keys labels).ncard - 1 ↔ (labels.map key).Nodup := by
  rw [ncard_keys]
  have sublist : (distinct labels).Sublist labels := distinctFrom_sublist [] labels
  constructor
  · intro count
    have fewer := sublist.length_le
    have some : (distinct labels).length = 0 → labels.length = 0 := by
      rw [List.length_eq_zero_iff, List.length_eq_zero_iff, ← keys_eq_empty_iff, ← keys_eq_empty_iff, keys_distinct]
      exact id
    rw [← sublist.eq_of_length (by omega)]
    exact nodup_key_distinct labels
  · intro nodup
    rw [distinct_eq_self nodup]

end Value

namespace Solution

/-! ## Listed edges -/

/-- Entries that were added are pairs, and the plain graph joins them. -/
theorem exists_pairs_of_depicts (depicts : tree.Depicts (keys vertices) joined)
    (added : addListed s vertices tree entries = .ok (.inl result)) :
    ∃ pairs, entries.mapM Value.asPair = .ok pairs ∧ result.Depicts (keys vertices) (joined ∪ bonds pairs) := by
  induction entries generalizing tree joined with
  | nil =>
    cases added
    exact ⟨[], rfl, by rwa [Value.bonds_nil, Set.union_empty]⟩
  | cons entry rest ih =>
    rw [addListed] at added
    obtain ⟨⟨a, b⟩, read, added⟩ := bind_eq_ok_iff.mp added
    obtain ⟨checked, asked, added⟩ := bind_eq_ok_iff.mp added
    split at added
    · cases added
    next paired =>
      split at added
      · cases added
      next inside =>
        rw [Bool.not_eq_true', Bool.not_eq_false] at paired
        rw [paired] at asked
        rw [Bool.or_eq_true, Bool.not_eq_true', Bool.not_eq_true', not_or, Bool.not_eq_false, Bool.not_eq_false,
          Value.isIn_iff_mem_keys, Value.isIn_iff_mem_keys] at inside
        obtain ⟨first, second, -⟩ := (Skeleton.Mirrors.hasEdge_iff (g := s.toGraph) ⟨rfl, rfl⟩).mp asked
        obtain ⟨i, start⟩ := depicts.exists_indexOf?_iff.mpr inside.1
        obtain ⟨j, stop⟩ := depicts.exists_indexOf?_iff.mpr inside.2
        rw [Skeleton.addPair_of_contains first second start stop] at added
        obtain ⟨pairs, others, last⟩ := ih (depicts.join start stop (a, b)) added
        refine ⟨(a, b) :: pairs, mapM_cons_eq_ok_iff.mpr ⟨_, _, read, others, rfl⟩, ?_⟩
        rwa [Value.bonds_cons, Set.union_insert, ← Set.insert_union]

/-- The plain graph of a tree has one pair fewer than nodes, and an empty one has no pairs. -/
theorem ncard_bonds_of_tree (depicts : tree.Depicts (keys vertices) (bonds pairs))
    (isTree : tree.size ≠ 0 → tree.isTree = true) : (bonds pairs).ncard = (keys vertices).ncard - 1 := by
  rw [depicts.ncard_bonds, ← Nat.card_coe_set_eq, depicts.card_vertices]
  by_cases empty : tree.size = 0
  · have none : bonds pairs = ∅ := by
      refine Set.eq_empty_of_forall_notMem fun bond member => ?_
      induction bond with
      | _ k l =>
        have among := depicts.mem_of_mem_bonds member k (Sym2.mem_mk_left k l)
        rwa [depicts.size_eq_zero_iff.mp empty] at among
    rw [empty, ← depicts.ncard_bonds, none, Set.ncard_empty]
  · have count := isTree empty
    rw [Skeleton.isTree, Bool.and_eq_true, beq_iff_eq] at count
    omega

/-! ## What an objective counts -/

/-- The objective of an accepted solution in terms of what it lists. Edges count without order and once, and are those
of a tree. Without edges, vertices count as often as they are listed. -/
structure Counts (vertices : List Value) (pairs? : Option (List (Value × Value))) (size : Nat) : Prop where
  edges : ∀ pairs, pairs? = some pairs → size = (bonds pairs).ncard ∧ size = (keys vertices).ncard - 1
  vertices : pairs? = none → size = vertices.length - 1

/-- A solution that lists edges, or no vertex twice. -/
def CountsOnce (vertices : List Value) (pairs? : Option (List (Value × Value))) : Prop :=
  pairs?.isSome = true ∨ (vertices.map Value.key).Nodup

theorem Counts.eq_pred_iff (counts : Counts vertices pairs? size) :
    size = (keys vertices).ncard - 1 ↔ CountsOnce vertices pairs? := by
  cases pairs? with
  | none =>
    rw [CountsOnce, counts.vertices rfl, Value.length_pred_eq_ncard_keys_iff]
    exact (or_iff_right Bool.false_ne_true).symm
  | some pairs => exact iff_of_true (counts.edges pairs rfl).2 (.inl rfl)

namespace Meets

variable {listed : Bool}

/-- What a solution that meets the rules lists. -/
theorem exists_offers (meets : Meets s terminals solution body vertices listed tree size) :
    ∃ vertices pairs?, Offers solution body vertices pairs? := by
  obtain ⟨members, read, hashable, rfl⟩ := meets.exists_members
  cases listed with
  | false => exact ⟨members, none, meets.inner, read, hashable, meets.lists⟩
  | true =>
    obtain ⟨edges, entries, field, items, added⟩ := meets.draws
    obtain ⟨pairs, taken, -⟩ :=
      exists_pairs_of_depicts (Skeleton.Depicts.of_labels (Value.nodup_key_distinct members)) added
    refine ⟨members, some pairs, meets.inner, read, hashable, meets.lists, ?_⟩
    exact bind_eq_ok_iff.mpr ⟨entries, bind_eq_ok_iff.mpr ⟨edges, field, items⟩, taken⟩

theorem counts {members : List Value} (meets : Meets s terminals solution body vertices listed tree size)
    (offers : Offers solution body members pairs?) : Counts members pairs? size := by
  obtain ⟨_, read, -, rfl⟩ := meets.exists_members
  cases offers.listed.symm.trans read
  have edges := offers.edges
  cases pairs? with
  | none =>
    have counted := objective_of_unlisted offers.inner edges offers.listed
    exact ⟨nofun, fun _ => Except.ok.inj (meets.objective.symm.trans counted)⟩
  | some pairs =>
    obtain ⟨lists, listing, entries, field, items, taken⟩ := edges.exists_entries
    cases lists.symm.trans meets.lists
    refine ⟨fun _ same => ?_, nofun⟩
    cases same
    obtain ⟨_, _, again, found, added⟩ := meets.draws
    cases field.symm.trans again
    cases items.symm.trans found
    obtain ⟨_, retaken, depicts⟩ :=
      exists_pairs_of_depicts (Skeleton.Depicts.of_labels (Value.nodup_key_distinct members)) added
    cases taken.symm.trans retaken
    rw [Set.empty_union, Value.keys_distinct] at depicts
    -- The objective counts the edges of the plain graph, and so do the pairs of keys.
    obtain ⟨edges, covers, -, count⟩ := meets.exists_covers_of_listed (g := s.toGraph) ⟨rfl, rfl⟩
    have same : size = (bonds pairs).ncard := by
      rw [← count, covers.copies.card_edges, depicts.ncard_bonds]
    have isTree := (judge_eq_feasible_iff.mp meets.judged).2.1 rfl
    exact ⟨same, same.trans (ncard_bonds_of_tree depicts isTree)⟩

end Meets

theorem counts_of_accepted (accepted : check problem solution = .ok (.feasible size))
    (offers : Offers solution body vertices pairs?) : Counts vertices pairs? size := by
  obtain ⟨s, terminals, inner, labels, listed, tree, -, -, meets⟩ := exists_meets_of_feasible accepted
  cases offers.inner.symm.trans meets.inner
  exact meets.counts offers

/-- The number of edges that the check finds is the objective. If a solution lists edges or no vertex twice, and only
then, it is one less than the number of its different vertices. So two such solutions with the same set of vertices
have the same objective, whatever else they list and whatever their instances are. -/
theorem objective_of_accepted (accepted : check problem solution = .ok (.feasible size)) :
    objective solution = .ok size ∧ ∃ body vertices pairs?, Offers solution body vertices pairs? ∧
      Counts vertices pairs? size ∧ (size = (keys vertices).ncard - 1 ↔ CountsOnce vertices pairs?) ∧
      ∀ otherProblem other otherBody otherVertices otherPairs? otherSize,
        check otherProblem other = .ok (.feasible otherSize) →
        Offers other otherBody otherVertices otherPairs? → keys otherVertices = keys vertices →
        CountsOnce vertices pairs? → CountsOnce otherVertices otherPairs? → otherSize = size := by
  obtain ⟨s, terminals, body, labels, listed, tree, -, -, meets⟩ := exists_meets_of_feasible accepted
  obtain ⟨vertices, pairs?, offers⟩ := meets.exists_offers
  have counts := meets.counts offers
  refine ⟨meets.objective, body, vertices, pairs?, offers, counts, counts.eq_pred_iff, ?_⟩
  intro otherProblem other otherBody otherVertices otherPairs? otherSize otherAccepted otherOffers same once otherOnce
  have otherCounts := counts_of_accepted otherAccepted otherOffers
  rw [counts.eq_pred_iff.mpr once, otherCounts.eq_pred_iff.mpr otherOnce, same]

/-- A tree of three vertices has two edges, although it lists three. -/
theorem objective_of_accepted_spelled : check looped (.dict [("solution", spelledBody)]) = .ok (.feasible 2) ∧
    objective (.dict [("solution", spelledBody)]) = .ok 2 ∧ ∃ body vertices pairs?,
      Offers (.dict [("solution", spelledBody)]) body vertices pairs? ∧ Counts vertices pairs? 2 ∧
      (2 = (keys vertices).ncard - 1 ↔ CountsOnce vertices pairs?) := by
  obtain ⟨same, body, vertices, pairs?, offers, counts, once, -⟩ := objective_of_accepted check_spelled
  exact ⟨check_spelled, same, body, vertices, pairs?, offers, counts, once⟩

/-! ### A vertex that is listed twice

The check takes vertices as a set, and so do the edges of a solution. A solution without edges is counted by its
list. -/

def linkedPair : Value := .dict [("nodes", .list [.text "a", .text "b"]),
  ("edges", .list [.dict [("source", .text "a"), ("target", .text "b")]]), ("terminals", .list [.text "a", .text "b"])]

/-- A solution that lists vertices only. -/
def unlinked (vertices : List Value) : Value := .dict [("solution", .dict [("vertices", .list vertices)])]

/-- The same two vertices make one edge or two, as often as they are listed. -/
theorem objective_of_repeatedVertex :
    check linkedPair (unlinked [.text "a", .text "b"]) = .ok (.feasible 1) ∧
    check linkedPair (unlinked [.text "a", .text "b", .text "a"]) = .ok (.feasible 2) ∧
    keys [.text "a", .text "b", .text "a"] = keys [.text "a", .text "b"] ∧
    (keys [.text "a", .text "b", .text "a"]).ncard - 1 = 1 := by
  refine ⟨check_eq_of_accepts (by decide +kernel), check_eq_of_accepts (by decide +kernel), ?_, ?_⟩
  · ext k
    simp only [Value.keys_cons, Value.keys_nil, Set.mem_insert_iff, Set.mem_empty_iff_false]
    tauto
  · rw [Value.ncard_keys]
    decide +kernel

end Solution

end SteinerTrees
