import SteinerTrees.Proofs.Graph.Keyed
import SteinerTrees.Proofs.Verdict.Readable

/-! # What the check decides

The rules of the check are tried one after the other. Together they ask for one thing: the vertices of a solution are
labels of the instance and hold its terminals, and they are joined to a tree by the edges that the solution lists, or
connected by all edges of the instance between them if it lists none. Labels count by what they are, and edges without
order and once. -/

namespace SteinerTrees

open Value (keys bonds)

variable {s tree : Skeleton} {problem solution body : Value} {nodes terminals vertices entries : List Value}
  {edges : List EdgeEntry} {pairs : List (Value × Value)} {pairs? : Option (List (Value × Value))} {known : Set Key}
  {joins joined : Set (Sym2 Key)}

/-- What an instance lists, if all its labels can be nodes. -/
structure Value.Poses (problem : Value) (nodes : List Value) (edges : List EdgeEntry) (terminals : List Value) :
    Prop where
  describes : problem.Describes nodes edges
  asked : problem.get "terminals" (.list []) >>= Value.items = .ok terminals
  labels : ∀ label ∈ nodes ++ edges.flatMap EdgeEntry.ends, label.isHashable = true ∧ label ≠ .null
  hashable : ∀ terminal ∈ terminals, terminal.isHashable = true

namespace Solution

/-- Whether a body lists pairs as its edges, or no edges at all. -/
def ListsPairs (body : Value) : Option (List (Value × Value)) → Prop
  | none => listsEdges body = .ok false
  | some pairs => listsEdges body = .ok true ∧
      body.field "edges" >>= Value.items >>= List.mapM Value.asPair = .ok pairs

theorem ListsPairs.exists_entries (lists : ListsPairs body (some pairs)) :
    listsEdges body = .ok true ∧ ∃ listing entries, body.field "edges" = .ok listing ∧ listing.items = .ok entries ∧
      entries.mapM Value.asPair = .ok pairs := by
  obtain ⟨lists, read⟩ := lists
  obtain ⟨entries, found, read⟩ := bind_eq_ok_iff.mp read
  obtain ⟨listing, field, items⟩ := bind_eq_ok_iff.mp found
  exact ⟨lists, listing, entries, field, items, read⟩

/-- What a solution lists: labels as vertices, and pairs as edges if it has any. -/
structure Offers (solution body : Value) (vertices : List Value) (pairs? : Option (List (Value × Value))) : Prop where
  inner : Solution.body solution = .ok body
  listed : body.get "vertices" (.list []) >>= Value.items = .ok vertices
  hashable : ∀ vertex ∈ vertices, vertex.isHashable = true
  edges : ListsPairs body pairs?

/-! ## The property -/

/-- Pairs of labels are edges of the instance between the vertices, and make these a tree. A loop is a cycle. -/
structure MakesTree (edges : List EdgeEntry) (vertices : List Value) (pairs : List (Value × Value)) : Prop where
  edges : ∀ pair ∈ pairs, s(pair.1.key, pair.2.key) ∈ bonds (edges.map EdgeEntry.pair)
  inside : ∀ pair ∈ pairs, pair.1.key ∈ keys vertices ∧ pair.2.key ∈ keys vertices
  tree : vertices = [] ∨ (∀ pair ∈ pairs, pair.1.key ≠ pair.2.key) ∧ (keyGraph (bonds pairs) (keys vertices)).IsTree

/-- The vertices are connected by all edges of the instance between them. -/
def AreConnected (edges : List EdgeEntry) (vertices : List Value) : Prop :=
  vertices = [] ∨ (keyGraph (bonds (edges.map EdgeEntry.pair)) (keys vertices)).Connected

/-- Whether vertices, perhaps with pairs, solve an instance. -/
structure Solves (nodes : List Value) (edges : List EdgeEntry) (terminals vertices : List Value)
    (pairs? : Option (List (Value × Value))) : Prop where
  terminals : keys terminals ⊆ keys vertices
  known : keys vertices ⊆ keys (nodes ++ edges.flatMap EdgeEntry.ends)
  joined : pairs?.elim (AreConnected edges vertices) (MakesTree edges vertices)

/-! ## Listed pairs -/

/-- A pair of labels that joins two vertices as the instance does. -/
structure Admits (joins : Set (Sym2 Key)) (vertices : List Value) (pair : Value × Value) : Prop where
  first : pair.1.isHashable = true
  second : pair.2.isHashable = true
  edge : s(pair.1.key, pair.2.key) ∈ joins
  source : pair.1.key ∈ keys vertices
  target : pair.2.key ∈ keys vertices

/-- Pairs that were added are admitted. -/
theorem admits_of_addListed (graph : s.Depicts known joins) (read : entries.mapM Value.asPair = .ok pairs)
    (added : addListed s vertices { nodes := vertices.toArray } entries = .ok (.inl tree)) :
    ∀ pair ∈ pairs, Admits joins vertices pair := by
  obtain ⟨places, listed⟩ := exists_pairs_of_addListed (g := s.toGraph) ⟨rfl, rfl⟩ added
  clear added
  induction listed generalizing pairs with
  | nil =>
    cases read
    exact fun _ member => absurd member List.not_mem_nil
  | @cons entry place rest places first _ ih =>
    obtain ⟨⟨a, b⟩, others, here, there, rfl⟩ := mapM_cons_eq_ok_iff.mp read
    refine List.forall_mem_cons.mpr ⟨?_, ih there⟩
    obtain ⟨same, left, right, start, stop, edge, source, target⟩ := first
    cases here.symm.trans same
    exact ⟨left, right, graph.mem_bonds_iff.mpr ⟨_, _, start, stop, edge⟩, Value.isIn_iff_mem_keys.mp source,
      Value.isIn_iff_mem_keys.mp target⟩

/-- Pairs that are admitted are added. -/
theorem exists_addListed_of_admits (graph : s.Depicts known joins) (depicts : tree.Depicts (keys vertices) joined)
    (read : entries.mapM Value.asPair = .ok pairs) (admits : ∀ pair ∈ pairs, Admits joins vertices pair) :
    ∃ result, addListed s vertices tree entries = .ok (.inl result) ∧
      result.Depicts (keys vertices) (joined ∪ bonds pairs) := by
  induction entries generalizing tree joined pairs with
  | nil =>
    have none : pairs = [] := by
      cases read
      rfl
    subst none
    exact ⟨tree, rfl, by rwa [Value.bonds_nil, Set.union_empty]⟩
  | cons entry rest ih =>
    obtain ⟨⟨a, b⟩, others, here, there, rfl⟩ := mapM_cons_eq_ok_iff.mp read
    obtain ⟨⟨left, right, edge, source, target⟩, following⟩ := List.forall_mem_cons.mp admits
    obtain ⟨i, start⟩ := depicts.exists_indexOf?_iff.mpr source
    obtain ⟨j, stop⟩ := depicts.exists_indexOf?_iff.mpr target
    obtain ⟨result, added, last⟩ := ih (depicts.join start stop (a, b)) there following
    refine ⟨result, ?_, ?_⟩
    · have checked := graph.hasEdge_iff.mpr ⟨left, right, edge⟩
      have first := Value.isIn_iff_mem_keys.mpr source
      have second := Value.isIn_iff_mem_keys.mpr target
      simp only at left right checked first second start stop
      simp only [addListed, here, checked, bind, Except.bind, first, second, Bool.not_true, Bool.or_self,
        Bool.false_eq_true, ↓reduceIte, Skeleton.addPair_of_contains left right start stop, added]
    · rwa [Value.bonds_cons, Set.union_insert, ← Set.insert_union]

/-- The plain graph of admitted pairs is a tree if they make one. -/
theorem isTree_iff_of_depicts (depicts : tree.Depicts (keys vertices) (bonds pairs)) (some : tree.size ≠ 0) :
    tree.isTree = true ↔
      (∀ pair ∈ pairs, pair.1.key ≠ pair.2.key) ∧ (keyGraph (bonds pairs) (keys vertices)).IsTree := by
  rw [depicts.isTree_iff some]
  refine and_congr_left fun _ => ⟨fun loopless pair member => loopless _ ⟨pair, member, rfl⟩, ?_⟩
  rintro differ _ ⟨pair, member, rfl⟩
  exact differ pair member

/-! ## The decision -/

/-- A solution with pairs of labels can be read as a whole. -/
theorem Offers.readsAs (offers : Offers solution body vertices pairs?)
    (hashable : ∀ pair ∈ pairs?.getD [], pair.1.isHashable = true ∧ pair.2.isHashable = true) :
    ReadsAs solution body vertices := by
  refine ⟨offers.inner, offers.listed, offers.hashable, ?_⟩
  have edges := offers.edges
  cases pairs? with
  | none => exact .inl edges
  | some pairs =>
    obtain ⟨lists, listing, entries, field, items, read⟩ := edges.exists_entries
    refine .inr ⟨lists, listing, entries, field, items, fun entry member => ?_⟩
    obtain ⟨⟨a, b⟩, among, same⟩ := exists_mem_of_mapM read member
    exact ⟨a, b, Value.asPair_eq_ok_iff.mp same, hashable (a, b) among⟩

/-- Accepted solutions are those that meet the rules. -/
theorem exists_feasible_iff (read : Skeleton.ofInstance problem = .ok s)
    (asked : (problem.get "terminals" (.list []) >>= Value.asSet) = .ok terminals) :
    (∃ size, check problem solution = .ok (.feasible size)) ↔
      ∃ body vertices listed tree size, Meets s terminals solution body vertices listed tree size := by
  constructor
  · rintro ⟨size, accepted⟩
    obtain ⟨body, vertices, listed, tree, meets⟩ := exists_meets_of_check read asked accepted
    exact ⟨body, vertices, listed, tree, size, meets⟩
  · rintro ⟨_, _, _, _, size, meets⟩
    exact ⟨size, meets.check_eq read asked⟩

/-- The rules on the vertices. -/
theorem subset_iff (graph : s.Depicts known joins) :
    ((∀ terminal ∈ Value.distinct terminals, terminal.isIn (Value.distinct vertices) = true) ∧
      ∀ vertex ∈ Value.distinct vertices, s.contains vertex = true) ↔
    keys terminals ⊆ keys vertices ∧ keys vertices ⊆ known := by
  rw [← Value.keys_distinct terminals, ← Value.keys_distinct vertices, Value.keys_subset_iff, Value.keys_subset_iff]
  simp only [Value.isIn_iff_mem_keys, graph.contains_iff]

theorem areConnected_iff (graph : s.Depicts known (bonds (edges.map EdgeEntry.pair))) (within : keys vertices ⊆ known) :
    ((s.induced (Value.distinct vertices)).size ≠ 0 → (s.induced (Value.distinct vertices)).isConnected = true) ↔
      AreConnected edges vertices := by
  have depicts := graph.induced (Value.distinct vertices)
  rw [Value.keys_distinct, Set.inter_eq_right.mpr within] at depicts
  rw [AreConnected, ← Value.keys_eq_empty_iff, ← depicts.size_eq_zero_iff, or_iff_not_imp_left]
  refine imp_congr_right fun some => ?_
  rw [depicts.isConnected_iff some, keyGraph_inside]

theorem makesTree_iff (graph : s.Depicts known (bonds (edges.map EdgeEntry.pair)))
    (hashable : ∀ vertex ∈ vertices, vertex.isHashable = true) (read : entries.mapM Value.asPair = .ok pairs) :
    (∃ tree, addListed s (Value.distinct vertices) { nodes := (Value.distinct vertices).toArray } entries =
        .ok (.inl tree) ∧ (tree.size ≠ 0 → tree.isConnected = true) ∧ (tree.size ≠ 0 → tree.isTree = true)) ↔
      MakesTree edges vertices pairs := by
  have start := Skeleton.Depicts.of_labels (Value.nodup_key_distinct vertices)
  have whole : ∀ {tree : Skeleton}, tree.Depicts (keys vertices) (bonds pairs) →
      ((tree.size ≠ 0 → tree.isTree = true) ↔ (vertices = [] ∨
        (∀ pair ∈ pairs, pair.1.key ≠ pair.2.key) ∧ (keyGraph (bonds pairs) (keys vertices)).IsTree)) := by
    intro tree depicts
    rw [← Value.keys_eq_empty_iff, ← depicts.size_eq_zero_iff, or_iff_not_imp_left]
    exact imp_congr_right (isTree_iff_of_depicts depicts)
  constructor
  · rintro ⟨tree, added, -, isTree⟩
    have admits := admits_of_addListed graph read added
    obtain ⟨other, again, depicts⟩ := exists_addListed_of_admits graph start read admits
    cases added.symm.trans again
    rw [Set.empty_union, Value.keys_distinct] at depicts
    refine ⟨fun pair member => (admits pair member).edge, fun pair member => ?_, (whole depicts).mp isTree⟩
    rw [← Value.keys_distinct]
    exact ⟨(admits pair member).source, (admits pair member).target⟩
  · intro makes
    have admits : ∀ pair ∈ pairs, Admits (bonds (edges.map EdgeEntry.pair)) (Value.distinct vertices) pair := by
      intro pair member
      obtain ⟨source, target⟩ := makes.inside pair member
      refine ⟨Value.isHashable_of_mem_keys hashable source, Value.isHashable_of_mem_keys hashable target,
        makes.edges pair member, ?_, ?_⟩
      · rwa [Value.keys_distinct]
      · rwa [Value.keys_distinct]
    obtain ⟨tree, added, depicts⟩ := exists_addListed_of_admits graph start read admits
    rw [Set.empty_union, Value.keys_distinct] at depicts
    have isTree := (whole depicts).mpr makes.tree
    refine ⟨tree, added, fun some => ?_, isTree⟩
    exact ((Bool.and_eq_true _ _).mp (isTree some)).1

/-- A solution is judged feasible by its plain graph if it solves the instance, and only then. -/
theorem judged_iff (graph : s.Depicts known (bonds (edges.map EdgeEntry.pair)))
    (offers : Offers solution body vertices pairs?) (within : keys vertices ⊆ known) :
    (∃ listed tree size, listsEdges body = .ok listed ∧ Draws s body (Value.distinct vertices) tree listed ∧
        judge solution listed tree = .ok (.feasible size)) ↔
      pairs?.elim (AreConnected edges vertices) (MakesTree edges vertices) := by
  simp only [judge_eq_feasible_iff]
  have edges_read := offers.edges
  cases pairs? with
  | none =>
    have lists : listsEdges body = .ok false := edges_read
    rw [Option.elim_none, ← areConnected_iff graph within]
    constructor
    · rintro ⟨listed, tree, size, same, draws, connected, -⟩
      cases lists.symm.trans same
      rwa [← draws] at connected
    · intro connected
      obtain ⟨size, counted⟩ := (offers.readsAs fun _ member => absurd member List.not_mem_nil).exists_objective
      exact ⟨false, _, size, lists, rfl, connected, nofun, counted⟩
  | some pairs =>
    obtain ⟨lists, listing, entries, field, items, read⟩ := edges_read.exists_entries
    rw [Option.elim_some]
    constructor
    · rintro ⟨listed, tree, size, same, draws, connected, isTree, -⟩
      cases lists.symm.trans same
      obtain ⟨_, _, other, taken, added⟩ := draws
      cases field.symm.trans other
      cases items.symm.trans taken
      exact (makesTree_iff graph offers.hashable read).mp ⟨tree, added, connected, isTree rfl⟩
    · intro makes
      obtain ⟨tree, added, connected, isTree⟩ := (makesTree_iff graph offers.hashable read).mpr makes
      have hashable : ∀ pair ∈ pairs, pair.1.isHashable = true ∧ pair.2.isHashable = true := fun pair member =>
        (makes.inside pair member).imp (Value.isHashable_of_mem_keys offers.hashable)
          (Value.isHashable_of_mem_keys offers.hashable)
      obtain ⟨size, counted⟩ := (offers.readsAs hashable).exists_objective
      exact ⟨true, tree, size, lists, ⟨listing, entries, field, items, added⟩, connected, fun _ => isTree, counted⟩

/-- The labels of some pairs. -/
def labelsOf (pairs : List (Value × Value)) : List Value := pairs.flatMap fun pair => [pair.1, pair.2]

/-- A label that a verdict on a solution shows is a terminal of the instance or occurs in the solution. -/
theorem Offers.mem_of_shows (offers : Offers solution body vertices pairs?) {label : Value}
    (shows : Shows (Value.distinct terminals) vertices body label) :
    label ∈ terminals ++ vertices ++ labelsOf (pairs?.getD []) := by
  rcases shows with terminal | vertex | ⟨lists, listing, entries, field, items, entry, member, a, b, pair, ended⟩
  · exact List.mem_append_left _ (List.mem_append_left _ (Value.mem_of_mem_distinct terminal))
  · exact List.mem_append_left _ (List.mem_append_right _ vertex)
  · have edges := offers.edges
    cases pairs? with
    | none => cases lists.symm.trans edges
    | some pairs =>
      obtain ⟨-, _, _, other, again, read⟩ := edges.exists_entries
      cases field.symm.trans other
      cases items.symm.trans again
      obtain ⟨_, among, same⟩ := exists_mem_of_mapM read member
      cases (Value.asPair_eq_ok_iff.mpr pair).symm.trans same
      exact List.mem_append_right _ (List.mem_flatMap.mpr ⟨(a, b), among, ended⟩)

/-- The check accepts a solution exactly if it solves the instance. It comes to a verdict on every solution whose pairs
are pairs of labels, unless there is a label that cannot be written. -/
theorem check_feasible_iff (poses : problem.Poses nodes edges terminals)
    (offers : Offers solution body vertices pairs?) :
    ((∃ size, check problem solution = .ok (.feasible size)) ↔ Solves nodes edges terminals vertices pairs?) ∧
      ((∀ pair ∈ pairs?.getD [], pair.1.isHashable = true ∧ pair.2.isHashable = true) →
        (∃ verdict, check problem solution = .ok verdict) ∨
        check problem solution = .error .unwritable ∧
          ∃ label ∈ terminals ++ vertices ++ labelsOf (pairs?.getD []), label.isWritable = false) := by
  obtain ⟨s, read, graph⟩ := Skeleton.depicts_ofInstance poses.describes poses.labels
  obtain ⟨query, wanted, items⟩ := bind_eq_ok_iff.mp poses.asked
  have asked : (problem.get "terminals" (.list []) >>= Value.asSet) = .ok (Value.distinct terminals) :=
    bind_eq_ok_iff.mpr ⟨query, wanted, Value.asSet_eq_ok_iff.mpr ⟨terminals, items, poses.hashable, rfl⟩⟩
  obtain ⟨named, found, listed⟩ := bind_eq_ok_iff.mp offers.listed
  have distinct : (body.get "vertices" (.list []) >>= Value.asSet) = .ok (Value.distinct vertices) :=
    bind_eq_ok_iff.mpr ⟨named, found, Value.asSet_eq_ok_iff.mpr ⟨vertices, listed, offers.hashable, rfl⟩⟩
  refine ⟨?_, fun hashable => (exists_verdict (offers.readsAs hashable) read asked).imp_right ?_⟩
  case refine_2 =>
    exact fun ⟨failed, label, shows, unwritable⟩ => ⟨failed, label, offers.mem_of_shows shows, unwritable⟩
  rw [exists_feasible_iff read asked]
  constructor
  · rintro ⟨other, labels, listed, tree, size, meets⟩
    cases offers.inner.symm.trans meets.inner
    cases distinct.symm.trans meets.distinct
    obtain ⟨held, within⟩ := (subset_iff graph).mp ⟨meets.complete, meets.known⟩
    have joined := (judged_iff graph offers within).mp ⟨listed, tree, size, meets.lists, meets.draws, meets.judged⟩
    exact ⟨held, within, joined⟩
  · intro solves
    obtain ⟨listed, tree, size, lists, draws, judged⟩ := (judged_iff graph offers solves.known).mpr solves.joined
    obtain ⟨complete, known⟩ := (subset_iff graph).mpr ⟨solves.terminals, solves.known⟩
    exact ⟨body, _, listed, tree, size, offers.inner, distinct, complete, known, lists, draws, judged⟩

/-- Two edges between the same nodes, a loop, and a node that only an edge names. -/
def looped : Value := .dict [("nodes", .list [.text "a", .text "a"]),
  ("edges", .list [.dict [("source", .text "a"), ("target", .text "b")],
    .dict [("source", .text "b"), ("target", .text "a")], .dict [("source", .text "a"), ("target", .text "a")],
    .dict [("source", .text "b"), ("target", .int 1)]]),
  ("terminals", .list [.bool true, .text "a"])]

def loopedEdges : List EdgeEntry := [⟨.text "a", .text "b", .null⟩, ⟨.text "b", .text "a", .null⟩,
  ⟨.text "a", .text "a", .null⟩, ⟨.text "b", .int 1, .null⟩]

/-- A tree with one edge in both directions and the other one as a text of two characters. -/
def spelledBody : Value := .dict [("vertices", .list [.int 1, .text "b", .text "a"]),
  ("edges", .list [.list [.int 1, .text "b"], .text "ab", .tuple [.text "b", .text "a"]])]

def spelledPairs : List (Value × Value) := [(.int 1, .text "b"), (.text "a", .text "b"), (.text "b", .text "a")]

theorem poses_looped : looped.Poses [.text "a", .text "a"] loopedEdges [.bool true, .text "a"] := by
  refine ⟨⟨rfl, rfl⟩, rfl, ?_, ?_⟩
  · simp [loopedEdges, EdgeEntry.ends, Value.isHashable, Value.unhashablePart?]
  · decide

theorem offers_spelled : Offers (.dict [("solution", spelledBody)]) spelledBody [.int 1, .text "b", .text "a"]
    (some spelledPairs) :=
  ⟨rfl, rfl, by decide, rfl, rfl⟩

theorem check_spelled : check looped (.dict [("solution", spelledBody)]) = .ok (.feasible 2) :=
  check_eq_of_accepts (by decide +kernel)

theorem exists_feasible_spelled : ∃ size, check looped (.dict [("solution", spelledBody)]) = .ok (.feasible size) :=
  ⟨2, check_spelled⟩

theorem check_feasible_iff_looped : looped.Poses [.text "a", .text "a"] loopedEdges [.bool true, .text "a"] ∧
    Offers (.dict [("solution", spelledBody)]) spelledBody [.int 1, .text "b", .text "a"] (some spelledPairs) ∧
    (∃ size, check looped (.dict [("solution", spelledBody)]) = .ok (.feasible size)) ∧
    ((∃ size, check looped (.dict [("solution", spelledBody)]) = .ok (.feasible size)) ↔
      Solves [.text "a", .text "a"] loopedEdges [.bool true, .text "a"] [.int 1, .text "b", .text "a"]
        (some spelledPairs)) ∧
    ((∀ pair ∈ (some spelledPairs).getD [], pair.1.isHashable = true ∧ pair.2.isHashable = true) →
      (∃ verdict, check looped (.dict [("solution", spelledBody)]) = .ok verdict) ∨
      check looped (.dict [("solution", spelledBody)]) = .error .unwritable ∧
        ∃ label ∈ [.bool true, .text "a"] ++ [.int 1, .text "b", .text "a"] ++ labelsOf ((some spelledPairs).getD []),
          label.isWritable = false) :=
  ⟨poses_looped, offers_spelled, exists_feasible_spelled, check_feasible_iff poses_looped offers_spelled⟩

end Solution

end SteinerTrees
