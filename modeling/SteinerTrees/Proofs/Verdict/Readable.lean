import SteinerTrees.Proofs.Verdict.Acceptance

/-! # Readable solutions

A solution is readable if it has a list of labels for its vertices and, if it lists edges, pairs of labels. Whatever it
says, its check comes to a verdict on every instance that can be read, unless a label that the verdict shows has too
many digits to be written. -/

namespace SteinerTrees.Solution

variable {s tree : Skeleton} {problem solution body a b entry : Value} {terminals vertices entries : List Value}

/-- An entry of two labels. -/
def IsPair (entry : Value) : Prop := ∃ a b, entry.items = .ok [a, b] ∧ a.isHashable = true ∧ b.isHashable = true

/-- A solution of which all parts that a check reads are in order. -/
structure ReadsAs (solution body : Value) (vertices : List Value) : Prop where
  inner : Solution.body solution = .ok body
  listed : body.get "vertices" (.list []) >>= Value.items = .ok vertices
  hashable : ∀ vertex ∈ vertices, vertex.isHashable = true
  edges : listsEdges body = .ok false ∨ listsEdges body = .ok true ∧
    ∃ edges entries, body.field "edges" = .ok edges ∧ edges.items = .ok entries ∧ ∀ entry ∈ entries, IsPair entry

def Readable (solution : Value) : Prop := ∃ body vertices, ReadsAs solution body vertices

/-! ## The parts of a check -/

theorem exists_hasEdge (s : Skeleton) (first : a.isHashable = true) (second : b.isHashable = true) :
    ∃ joined, s.hasEdge a b = .ok joined := by
  simp only [Skeleton.hasEdge, Value.asLabel_of_isHashable first, Value.asLabel_of_isHashable second, bind, Except.bind]
  split
  · exact ⟨_, rfl⟩
  · split <;> exact ⟨_, rfl⟩

theorem exists_indexOf? (nodes : tree.nodes.toList = vertices) (among : a.isIn vertices = true) :
    ∃ i, tree.indexOf? a = some i := by
  rw [← nodes] at among
  obtain ⟨label, member, same⟩ := List.any_eq_true.mp among
  refine Option.isSome_iff_exists.mp ?_
  rw [Skeleton.indexOf?, Array.findIdx?_isSome, Array.any_eq_true']
  exact ⟨label, Array.mem_toList_iff.mp member, same⟩

/-- A label is one of a pair that is listed. -/
def IsEnd (entries : List Value) (label : Value) : Prop :=
  ∃ entry ∈ entries, ∃ a b, entry.items = .ok [a, b] ∧ label ∈ [a, b]

theorem IsEnd.mono (ended : IsEnd entries a) {others : List Value} (subset : entries ⊆ others) : IsEnd others a := by
  obtain ⟨entry, member, pair⟩ := ended
  exact ⟨entry, subset member, pair⟩

/-- Pairs of labels are added, or one of them is objected to. -/
theorem exists_addListed (s : Skeleton) (nodes : tree.nodes.toList = vertices)
    (pairs : ∀ entry ∈ entries, IsPair entry) :
    (∃ result, addListed s vertices tree entries = .ok (.inl result)) ∨
    ∃ objection, addListed s vertices tree entries = .ok (.inr objection) ∧
      ∀ label ∈ objection.shownLabels, IsEnd entries label := by
  induction entries generalizing tree with
  | nil => exact .inl ⟨_, rfl⟩
  | cons entry rest ih =>
    obtain ⟨⟨a, b, listed, first, second⟩, others⟩ := List.forall_mem_cons.mp pairs
    obtain ⟨joined, checked⟩ := exists_hasEdge s first second
    have here : ∀ label ∈ [a, b], IsEnd (entry :: rest) label :=
      fun label member => ⟨entry, List.mem_cons_self, a, b, listed, member⟩
    simp only [addListed, Value.asPair_eq_ok_iff.mpr listed, checked, bind, Except.bind]
    cases joined with
    | false => exact .inr ⟨_, rfl, here⟩
    | true =>
      simp only [Bool.not_true, Bool.false_eq_true, ↓reduceIte]
      split
      · exact .inr ⟨_, rfl, here⟩
      · rename_i inside
        rw [Bool.or_eq_true, not_or, Bool.not_eq_true', Bool.not_eq_true', Bool.not_eq_false,
          Bool.not_eq_false] at inside
        obtain ⟨i, start⟩ := exists_indexOf? nodes inside.1
        obtain ⟨j, stop⟩ := exists_indexOf? nodes inside.2
        rw [Skeleton.addPair_of_contains first second start stop]
        have kept : (tree.join ⟨(i, j), (a, b)⟩).nodes.toList = vertices := by rw [Skeleton.nodes_join, nodes]
        rcases ih kept others with added | ⟨objection, refused, shown⟩
        · exact .inl added
        · exact .inr ⟨objection, refused, fun label member => (shown label member).mono (List.subset_cons_self _ _)⟩

/-- An objection is a verdict if the labels that it shows can be written. -/
theorem against_cases (objection : Objection) (edges : Nat) :
    (∃ verdict, Verdict.against objection edges = .ok verdict) ∨
    Verdict.against objection edges = .error .unwritable ∧
      ∃ label ∈ objection.shownLabels, label.isWritable = false := by
  unfold Verdict.against
  split
  next => exact .inl ⟨_, rfl⟩
  next unwritable => exact .inr ⟨rfl, by simpa using unwritable⟩

theorem asSet_of_isPair (pair : IsPair entry) : ∃ set, entry.asSet = .ok set := by
  obtain ⟨a, b, listed, first, second⟩ := pair
  exact ⟨_, Value.asSet_eq_ok_iff.mpr ⟨[a, b], listed,
    List.forall_mem_cons.mpr ⟨first, List.forall_mem_singleton.mpr second⟩, rfl⟩⟩

theorem exists_mapM_asSet (pairs : ∀ entry ∈ entries, IsPair entry) :
    ∃ sets, entries.mapM Value.asSet = .ok sets := by
  induction entries with
  | nil => exact ⟨[], rfl⟩
  | cons entry rest ih =>
    obtain ⟨first, others⟩ := List.forall_mem_cons.mp pairs
    obtain ⟨set, here⟩ := asSet_of_isPair first
    obtain ⟨sets, there⟩ := ih others
    exact ⟨set :: sets, mapM_cons_eq_ok_iff.mpr ⟨set, sets, here, there, rfl⟩⟩

theorem ReadsAs.exists_objective (reads : ReadsAs solution body vertices) : ∃ size, objective solution = .ok size := by
  rcases reads.edges with lists | ⟨lists, edges, entries, field, items, pairs⟩
  · exact ⟨_, objective_of_unlisted reads.inner lists reads.listed⟩
  · obtain ⟨sets, read⟩ := exists_mapM_asSet pairs
    simp only [objective, reads.inner, lists, field, items, read, bind, Except.bind, ↓reduceIte]
    exact ⟨_, rfl⟩

theorem ReadsAs.exists_judge (reads : ReadsAs solution body vertices) (listed : Bool) (tree : Skeleton) :
    ∃ verdict, judge solution listed tree = .ok verdict := by
  obtain ⟨size, counted⟩ := reads.exists_objective
  unfold judge
  split_ifs
  · exact ⟨_, rfl⟩
  · exact ⟨_, rfl⟩
  · rw [counted]
    exact ⟨_, rfl⟩

/-- The labels that a verdict may show: terminals, vertices and the ends of listed edges. -/
def Shows (terminals vertices : List Value) (body label : Value) : Prop :=
  label ∈ terminals ∨ label ∈ vertices ∨ listsEdges body = .ok true ∧
    ∃ edges entries, body.field "edges" = .ok edges ∧ edges.items = .ok entries ∧ IsEnd entries label

/-- On an instance of which the plain graph and the terminals can be read, a readable solution comes to a verdict,
unless this shows a label that cannot be written. -/
theorem exists_verdict (reads : ReadsAs solution body vertices) (read : Skeleton.ofInstance problem = .ok s)
    (asked : (problem.get "terminals" (.list []) >>= Value.asSet) = .ok terminals) :
    (∃ verdict, check problem solution = .ok verdict) ∨
    check problem solution = .error .unwritable ∧
      ∃ label, Shows terminals vertices body label ∧ label.isWritable = false := by
  obtain ⟨named, found, listed⟩ := bind_eq_ok_iff.mp reads.listed
  have set : named.asSet = .ok (Value.distinct vertices) :=
    Value.asSet_eq_ok_iff.mpr ⟨vertices, listed, reads.hashable, rfl⟩
  obtain ⟨query, wanted, chosen⟩ := bind_eq_ok_iff.mp asked
  obtain ⟨nodes, listing, read⟩ := bind_eq_ok_iff.mp read
  obtain ⟨members, items, read⟩ := bind_eq_ok_iff.mp read
  obtain ⟨middle, first, read⟩ := bind_eq_ok_iff.mp read
  obtain ⟨links, linking, read⟩ := bind_eq_ok_iff.mp read
  obtain ⟨entries, described, second⟩ := bind_eq_ok_iff.mp read
  -- Whatever is objected to, the labels in question come from what was read.
  have objects : ∀ objection, (∀ label ∈ objection.shownLabels, Shows terminals vertices body label) →
      (∃ verdict, Verdict.against objection 0 = .ok verdict) ∨ Verdict.against objection 0 = .error .unwritable ∧
        ∃ label, Shows terminals vertices body label ∧ label.isWritable = false := by
    intro objection shown
    refine (against_cases objection 0).imp_right fun ⟨failed, label, member, unwritable⟩ => ?_
    exact ⟨failed, label, shown label member, unwritable⟩
  simp only [check, reads.inner, found, set, wanted, chosen, bind, Except.bind]
  split
  next missing =>
    refine objects _ fun label member => .inl ?_
    exact List.mem_of_mem_filter (missing ▸ member)
  simp only [listing, items, first, linking, described, second]
  split
  next unknown =>
    refine objects _ fun label member => .inr (.inl ?_)
    exact Value.mem_of_mem_distinct (List.mem_of_mem_filter (unknown ▸ member))
  rcases reads.edges with lists | ⟨lists, edges, entries, field, items, pairs⟩
  · simp only [lists, Bool.false_eq_true, ↓reduceIte]
    exact .inl (reads.exists_judge _ _)
  · simp only [lists, field, items, ↓reduceIte]
    have nodes : (Skeleton.mk (Value.distinct vertices).toArray #[]).nodes.toList = Value.distinct vertices := rfl
    rcases exists_addListed s nodes pairs with
      ⟨tree, added⟩ | ⟨objection, refused, shown⟩
    · rw [added]
      exact .inl (reads.exists_judge _ _)
    · rw [refused]
      refine objects objection fun label member => .inr (.inr ⟨lists, ?_⟩)
      exact ⟨edges, entries, field, items, shown label member⟩

end SteinerTrees.Solution
