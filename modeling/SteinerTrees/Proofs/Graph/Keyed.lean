import SteinerTrees.Proofs.Graph.Listing
import SteinerTrees.Proofs.Graph.Mirror

/-! # Plain graphs by their keys

What a plain graph says, without the indexes of its nodes: the keys of its labels, and the unordered pairs of keys that
it joins, loops among them. Every step that builds a plain graph adds to one or the other, and both are enough to tell
whether it is connected and whether it is a tree. -/

namespace SteinerTrees

namespace Value

/-- The keys of some labels. -/
def keys (labels : List Value) : Set Key := {k | ∃ label ∈ labels, label.key = k}

@[simp] theorem keys_nil : keys [] = ∅ := by simp [keys]

@[simp] theorem keys_cons (label : Value) (rest : List Value) :
    keys (label :: rest) = insert label.key (keys rest) := by
  ext k
  simp [keys, eq_comm]

@[simp] theorem keys_append (labels more : List Value) : keys (labels ++ more) = keys labels ∪ keys more := by
  ext k
  simp [keys, or_and_right, exists_or]

theorem keys_subset_iff {labels : List Value} {wanted : Set Key} :
    keys labels ⊆ wanted ↔ ∀ label ∈ labels, label.key ∈ wanted := by
  constructor
  · exact fun subset label member => subset ⟨label, member, rfl⟩
  · rintro each _ ⟨label, member, rfl⟩
    exact each label member

theorem keys_eq_empty_iff {labels : List Value} : keys labels = ∅ ↔ labels = [] := by
  cases labels with
  | nil => exact iff_of_true keys_nil rfl
  | cons label rest =>
    rw [keys_cons]
    exact iff_of_false (Set.insert_nonempty _ _).ne_empty (List.cons_ne_nil _ _)

theorem keys_distinct (labels : List Value) : keys (distinct labels) = keys labels := by
  ext k
  have same : k ∈ (distinct labels).map key ↔ k ∈ labels.map key := key_mem_distinct_iff
  rwa [List.mem_map, List.mem_map] at same

theorem isIn_iff_mem_keys {a : Value} {labels : List Value} : a.isIn labels = true ↔ a.key ∈ keys labels := by
  rw [isIn_iff, List.mem_map]
  rfl

/-- What has the key of a label can be a label, too. -/
theorem isHashable_of_mem_keys {a : Value} {labels : List Value} (hashable : ∀ label ∈ labels, label.isHashable = true)
    (member : a.key ∈ keys labels) : a.isHashable = true := by
  obtain ⟨label, listed, same⟩ := member
  rw [← isHashable_congr same]
  exact hashable label listed

/-- The pairs of keys that pairs of labels join. -/
def bonds (pairs : List (Value × Value)) : Set (Sym2 Key) := {bond | ∃ pair ∈ pairs, s(pair.1.key, pair.2.key) = bond}

@[simp] theorem bonds_nil : bonds [] = ∅ := by simp [bonds]

@[simp] theorem bonds_cons (pair : Value × Value) (rest : List (Value × Value)) :
    bonds (pair :: rest) = insert s(pair.1.key, pair.2.key) (bonds rest) := by
  ext bond
  simp [bonds, eq_comm]

end Value

/-- The ends of an edge, in order. -/
def EdgeEntry.pair (e : EdgeEntry) : Value × Value := (e.source, e.target)

variable {s : Skeleton} {vertices : Set Key} {bonds : Set (Sym2 Key)} {labels : List Value} {a b : Value} {k : Key}
  {i j : Nat}

/-- The simple graph on some keys, with the pairs between two of them that are no loops. -/
def keyGraph (bonds : Set (Sym2 Key)) (vertices : Set Key) : SimpleGraph vertices :=
  (SimpleGraph.fromEdgeSet bonds).induce vertices

theorem keyGraph_adj {u v : vertices} : (keyGraph bonds vertices).Adj u v ↔ s(u.1, v.1) ∈ bonds ∧ u ≠ v := by
  rw [keyGraph, SimpleGraph.comap_adj, SimpleGraph.fromEdgeSet_adj]
  exact and_congr_right fun _ => not_congr Subtype.ext_iff.symm

/-- Pairs that leave the keys do not count. -/
theorem keyGraph_inside (bonds : Set (Sym2 Key)) (vertices : Set Key) :
    keyGraph {bond ∈ bonds | ∀ k ∈ bond, k ∈ vertices} vertices = keyGraph bonds vertices := by
  ext u v
  rw [keyGraph_adj, keyGraph_adj]
  refine and_congr_left fun _ => and_iff_left ?_
  intro k endpoint
  rcases Sym2.mem_iff.mp endpoint with rfl | rfl
  · exact u.2
  · exact v.2

namespace Skeleton

/-- The key of a node. -/
def keyAt (s : Skeleton) (i : Nat) : Key := (s.node i).key

/-- A plain graph has nodes with some keys, and joins some pairs of them. -/
structure Depicts (s : Skeleton) (vertices : Set Key) (bonds : Set (Sym2 Key)) : Prop where
  valid : s.toGraph.WellFormed
  vertices : Value.keys s.nodes.toList = vertices
  bonds : Sym2.map s.keyAt '' s.toGraph.edgeSet = bonds

namespace Depicts

/-! ## Nodes -/

theorem of_labels (distinct : (labels.map Value.key).Nodup) :
    ({ nodes := labels.toArray } : Skeleton).Depicts (Value.keys labels) ∅ := by
  refine ⟨wellFormed_of_nodes distinct, rfl, ?_⟩
  rw [edgeSet_of_nodes, Finset.coe_empty, Set.image_empty]

variable (depicts : s.Depicts vertices bonds)

include depicts

theorem mem_vertices_iff : k ∈ vertices ↔ ∃ i < s.size, s.keyAt i = k := by
  rw [← depicts.vertices]
  constructor
  · intro member
    obtain ⟨label, listed, rfl⟩ := member
    obtain ⟨i, inside, rfl⟩ := Array.mem_iff_getElem.mp (Array.mem_toList_iff.mp listed)
    exact ⟨i, inside, congrArg Value.key (Graph.label_eq (g := s.toGraph) inside)⟩
  · rintro ⟨i, inside, rfl⟩
    refine ⟨s.node i, Array.mem_toList_iff.mpr ?_, rfl⟩
    rw [show s.node i = _ from Graph.label_eq (g := s.toGraph) inside]
    exact Array.getElem_mem inside

theorem keyAt_mem (inside : i < s.size) : s.keyAt i ∈ vertices := depicts.mem_vertices_iff.mpr ⟨i, inside, rfl⟩

theorem keyAt_inj (first : i < s.size) (second : j < s.size) (same : s.keyAt i = s.keyAt j) : i = j :=
  depicts.valid.eq_of_key_eq first second same

theorem indexOf?_eq_some_iff : s.indexOf? a = some i ↔ i < s.size ∧ s.keyAt i = a.key :=
  depicts.valid.indexOf?_eq_some_iff

theorem size_eq_zero_iff : s.size = 0 ↔ vertices = ∅ := by
  rw [Set.eq_empty_iff_forall_notMem]
  simp only [depicts.mem_vertices_iff, not_exists, not_and]
  exact ⟨fun empty _ _ inside => absurd inside (by omega), fun none => by_contra fun some =>
    none _ 0 (Nat.pos_of_ne_zero some) rfl⟩

theorem exists_indexOf?_iff : (∃ i, s.indexOf? a = some i) ↔ a.key ∈ vertices := by
  simp only [depicts.indexOf?_eq_some_iff, depicts.mem_vertices_iff]

theorem contains_iff : s.contains a = true ↔ a.key ∈ vertices := by
  rw [contains, Option.isSome_iff_exists, depicts.exists_indexOf?_iff]

theorem addNode (hashable : a.isHashable = true) (present : a ≠ .null) :
    ∃ t, s.addNode a = .ok t ∧ t.Depicts (insert a.key vertices) bonds := by
  cases found : s.indexOf? a with
  | some i =>
    have old := depicts.exists_indexOf?_iff.mp ⟨i, found⟩
    exact ⟨s, addNode_of_contains hashable found, by rwa [Set.insert_eq_of_mem old]⟩
  | none =>
    refine ⟨_, addNode_of_absent hashable present found, depicts.valid.push found, ?_, ?_⟩
    · rw [Array.toList_push, Value.keys_append, Value.keys_cons, Value.keys_nil, depicts.vertices, Set.union_insert,
        Set.union_empty]
    · -- The new node is behind those that are joined.
      rw [← depicts.bonds]
      refine Set.image_congr fun pair member => ?_
      induction pair with
      | _ i j =>
        have inside := depicts.valid.lt_size (Finset.mem_coe.mp member)
        have kept : ∀ i < s.size, ({ s with nodes := s.nodes.push a } : Skeleton).keyAt i = s.keyAt i := by
          intro i inside
          rw [keyAt, keyAt, node, node, Array.getD_eq_getD_getElem?, Array.getD_eq_getD_getElem?,
            Array.getElem?_push_lt inside, Array.getElem?_eq_getElem inside]
        rw [Sym2.map_mk, Sym2.map_mk, kept i inside.1, kept j inside.2]

/-! ## Pairs -/

theorem mem_of_mem_bonds {bond : Sym2 Key} (member : bond ∈ bonds) : ∀ k ∈ bond, k ∈ vertices := by
  rw [← depicts.bonds] at member
  obtain ⟨pair, joined, rfl⟩ := member
  induction pair with
  | _ i j =>
    have inside := depicts.valid.lt_size (Finset.mem_coe.mp joined)
    intro k endpoint
    rcases Sym2.mem_iff.mp endpoint with rfl | rfl
    · exact depicts.keyAt_mem inside.1
    · exact depicts.keyAt_mem inside.2

theorem keyAt_bond_iff (first : i < s.size) (second : j < s.size) :
    s(s.keyAt i, s.keyAt j) ∈ bonds ↔ s(i, j) ∈ s.toGraph.edgeSet := by
  rw [← depicts.bonds]
  refine ⟨?_, fun member => ⟨s(i, j), member, rfl⟩⟩
  rintro ⟨pair, member, same⟩
  induction pair with
  | _ u v =>
    obtain ⟨u_in, v_in⟩ := depicts.valid.lt_size (Finset.mem_coe.mp member)
    rcases Sym2.eq_iff.mp same with ⟨start, stop⟩ | ⟨start, stop⟩
    · obtain rfl := depicts.keyAt_inj u_in first start
      obtain rfl := depicts.keyAt_inj v_in second stop
      exact member
    · obtain rfl := depicts.keyAt_inj u_in second start
      obtain rfl := depicts.keyAt_inj v_in first stop
      exact Sym2.eq_swap ▸ member

theorem mem_bonds_iff : s(a.key, b.key) ∈ bonds ↔
    ∃ i j, s.indexOf? a = some i ∧ s.indexOf? b = some j ∧ s(i, j) ∈ s.toGraph.edgeSet := by
  constructor
  · intro member
    have among := depicts.mem_of_mem_bonds member
    obtain ⟨i, source⟩ := depicts.exists_indexOf?_iff.mpr (among _ (Sym2.mem_mk_left _ _))
    obtain ⟨j, target⟩ := depicts.exists_indexOf?_iff.mpr (among _ (Sym2.mem_mk_right _ _))
    obtain ⟨first, start⟩ := depicts.indexOf?_eq_some_iff.mp source
    obtain ⟨second, stop⟩ := depicts.indexOf?_eq_some_iff.mp target
    rw [← start, ← stop, depicts.keyAt_bond_iff first second] at member
    exact ⟨i, j, source, target, member⟩
  · rintro ⟨i, j, source, target, member⟩
    obtain ⟨first, start⟩ := depicts.indexOf?_eq_some_iff.mp source
    obtain ⟨second, stop⟩ := depicts.indexOf?_eq_some_iff.mp target
    rwa [← start, ← stop, depicts.keyAt_bond_iff first second]

theorem hasEdge_iff :
    s.hasEdge a b = .ok true ↔ a.isHashable = true ∧ b.isHashable = true ∧ s(a.key, b.key) ∈ bonds := by
  rw [depicts.mem_bonds_iff]
  exact Mirrors.hasEdge_iff (g := s.toGraph) ⟨rfl, rfl⟩

theorem join (first : s.indexOf? a = some i) (second : s.indexOf? b = some j) (labels : Value × Value) :
    (s.join ⟨(i, j), labels⟩).Depicts vertices (insert s(a.key, b.key) bonds) := by
  obtain ⟨inside, start⟩ := depicts.indexOf?_eq_some_iff.mp first
  obtain ⟨within, stop⟩ := depicts.indexOf?_eq_some_iff.mp second
  have same : (s.join ⟨(i, j), labels⟩).keyAt = s.keyAt := by
    funext k
    rw [keyAt, keyAt, node, node, nodes_join]
  refine ⟨wellFormed_join depicts.valid inside within labels, ?_, ?_⟩
  · rw [nodes_join, depicts.vertices]
  · rw [same, edgeSet_join, Finset.coe_insert, Set.image_insert_eq, depicts.bonds, Sym2.map_mk, start, stop]

theorem addPair (first : a.isHashable = true) (second : b.isHashable = true) (start : a ≠ .null) (stop : b ≠ .null) :
    ∃ t, s.addPair a b = .ok t ∧
      t.Depicts (insert b.key (insert a.key vertices)) (insert s(a.key, b.key) bonds) := by
  obtain ⟨middle, here, depicts⟩ := depicts.addNode first start
  obtain ⟨last, there, depicts⟩ := depicts.addNode second stop
  obtain ⟨i, source⟩ := depicts.exists_indexOf?_iff.mpr (Set.mem_insert_of_mem b.key (Set.mem_insert a.key vertices))
  obtain ⟨j, target⟩ := depicts.exists_indexOf?_iff.mpr (Set.mem_insert b.key (insert a.key vertices))
  refine ⟨_, ?_, depicts.join source target (a, b)⟩
  simp only [Skeleton.addPair, here, there, bind, Except.bind, source, target]
  rfl

end Depicts

/-! ## Instances -/

variable {nodes entries : List Value} {edges : List EdgeEntry} {problem : Value}

theorem Depicts.foldlM_addDescribed (depicts : s.Depicts vertices bonds)
    (labels : ∀ label ∈ nodes, label.isHashable = true ∧ label ≠ .null) :
    ∃ t, nodes.foldlM addDescribed s = .ok t ∧ t.Depicts (vertices ∪ Value.keys nodes) bonds := by
  induction nodes generalizing s vertices with
  | nil => exact ⟨s, rfl, by rwa [Value.keys_nil, Set.union_empty]⟩
  | cons label rest ih =>
    obtain ⟨⟨hashable, present⟩, others⟩ := List.forall_mem_cons.mp labels
    obtain ⟨t, here, next⟩ := depicts.addNode hashable present
    obtain ⟨u, there, last⟩ := ih next others
    refine ⟨u, ?_, ?_⟩
    · rw [List.foldlM_cons, addDescribed, if_pos hashable, here]
      exact there
    · rwa [Value.keys_cons, Set.union_insert, ← Set.insert_union]

theorem Depicts.foldlM_addEdge (depicts : s.Depicts vertices bonds)
    (described : entries.mapM EdgeEntry.ofValue = .ok edges)
    (labels : ∀ e ∈ edges, ∀ label ∈ e.ends, label.isHashable = true ∧ label ≠ .null) :
    ∃ t, entries.foldlM addEdge s = .ok t ∧
      t.Depicts (vertices ∪ Value.keys (edges.flatMap EdgeEntry.ends))
        (bonds ∪ Value.bonds (edges.map EdgeEntry.pair)) := by
  induction entries generalizing s vertices bonds edges with
  | nil =>
    cases described
    exact ⟨s, rfl, by simpa using depicts⟩
  | cons entry rest ih =>
    obtain ⟨e, edges, first, listed, rfl⟩ := mapM_cons_eq_ok_iff.mp described
    obtain ⟨proper, others⟩ := List.forall_mem_cons.mp labels
    obtain ⟨source, target, -⟩ := EdgeEntry.ofValue_eq_ok_iff.mp first
    have start := proper _ List.mem_cons_self
    have stop := proper _ (List.mem_cons_of_mem _ List.mem_cons_self)
    obtain ⟨t, here, next⟩ := depicts.addPair start.1 stop.1 start.2 stop.2
    obtain ⟨u, there, last⟩ := ih next listed others
    refine ⟨u, ?_, ?_⟩
    · simp only [List.foldlM_cons, Skeleton.addEdge, source, target, here, bind, Except.bind]
      exact there
    · have vertices_eq : vertices ∪ Value.keys ((e :: edges).flatMap EdgeEntry.ends) =
          insert e.target.key (insert e.source.key vertices) ∪ Value.keys (edges.flatMap EdgeEntry.ends) := by
        ext k
        simp only [List.flatMap_cons, EdgeEntry.ends, Value.keys_append, Value.keys_cons, Value.keys_nil, Set.mem_union,
          Set.mem_insert_iff, Set.mem_empty_iff_false]
        tauto
      rwa [vertices_eq, List.map_cons, Value.bonds_cons, Set.union_insert, ← Set.insert_union]

/-- The plain graph of an instance has all its labels as nodes, and joins the ends of each edge. -/
theorem depicts_ofInstance (described : problem.Describes nodes edges)
    (labels : ∀ label ∈ nodes ++ edges.flatMap EdgeEntry.ends, label.isHashable = true ∧ label ≠ .null) :
    ∃ s, Skeleton.ofInstance problem = .ok s ∧
      s.Depicts (Value.keys (nodes ++ edges.flatMap EdgeEntry.ends)) (Value.bonds (edges.map EdgeEntry.pair)) := by
  obtain ⟨first, ends⟩ := List.forall_mem_append.mp labels
  obtain ⟨listing, read, listed⟩ := bind_eq_ok_iff.mp described.nodes
  obtain ⟨entries, found, taken⟩ := bind_eq_ok_iff.mp described.edges
  obtain ⟨collection, here, members⟩ := bind_eq_ok_iff.mp found
  have empty : ({} : Skeleton).Depicts ∅ ∅ := by
    rw [← Value.keys_nil]
    exact .of_labels List.nodup_nil
  obtain ⟨middle, started, depicts⟩ := empty.foldlM_addDescribed first
  obtain ⟨last, ended, depicts⟩ := depicts.foldlM_addEdge taken (List.forall_mem_flatMap.mp ends)
  refine ⟨last, ?_, ?_⟩
  · simp only [Skeleton.ofInstance, read, listed, started, here, members, bind, Except.bind]
    exact ended
  · rwa [Set.empty_union, Set.empty_union, ← Value.keys_append] at depicts

/-! ## The part on some labels -/

/-- The pairs of keys that links of a plain graph join, as far as they are between some keys. -/
def bondsWithin (s : Skeleton) (kept : Set Key) (links : List Bond) : Set (Sym2 Key) :=
  {bond | (∃ link ∈ links, s(s.keyAt link.ends.1, s.keyAt link.ends.2) = bond) ∧ ∀ k ∈ bond, k ∈ kept}

theorem bondsWithin_cons (s : Skeleton) (kept : Set Key) (link : Bond) (rest : List Bond) :
    s.bondsWithin kept (link :: rest) = s.bondsWithin kept [link] ∪ s.bondsWithin kept rest := by
  ext bond
  simp [bondsWithin, or_and_right, exists_or]

/-- Bonds are joined where both ends are nodes. -/
theorem Depicts.foldl_inside {inside : Skeleton} {kept : Set Key} {joined : Set (Sym2 Key)}
    (depicts : inside.Depicts kept joined) (links : List Bond) :
    (links.foldl (fun inside bond =>
      match inside.indexOf? (s.node bond.ends.1), inside.indexOf? (s.node bond.ends.2) with
      | some u, some v => inside.join ⟨(u, v), bond.labels⟩
      | _, _ => inside) inside).Depicts kept (joined ∪ s.bondsWithin kept links) := by
  induction links generalizing inside joined with
  | nil => simpa [bondsWithin] using depicts
  | cons link rest ih =>
    rw [List.foldl_cons, bondsWithin_cons, ← Set.union_assoc]
    refine ih ?_
    split
    next u v start stop =>
      have first := depicts.exists_indexOf?_iff.mp ⟨u, start⟩
      have second := depicts.exists_indexOf?_iff.mp ⟨v, stop⟩
      have whole : s.bondsWithin kept [link] = {s(s.keyAt link.ends.1, s.keyAt link.ends.2)} := by
        ext bond
        simp only [bondsWithin, List.mem_singleton, exists_eq_left, Set.mem_ofPred_eq, Set.mem_singleton_iff]
        refine ⟨fun both => both.1.symm, fun same => ⟨same.symm, ?_⟩⟩
        rw [same]
        intro k endpoint
        rcases Sym2.mem_iff.mp endpoint with rfl | rfl
        · exact first
        · exact second
      rw [whole, Set.union_singleton]
      exact depicts.join start stop link.labels
    next missing =>
      have none : s.bondsWithin kept [link] = ∅ := by
        refine Set.eq_empty_of_forall_notMem ?_
        rintro _ ⟨⟨_, listed, rfl⟩, among⟩
        obtain rfl := List.mem_singleton.mp listed
        obtain ⟨u, start⟩ := depicts.exists_indexOf?_iff.mpr (among _ (Sym2.mem_mk_left _ _))
        obtain ⟨v, stop⟩ := depicts.exists_indexOf?_iff.mpr (among _ (Sym2.mem_mk_right _ _))
        exact missing u v start stop
      rwa [none, Set.union_empty]

/-- The part of a plain graph on some labels. -/
theorem Depicts.induced (depicts : s.Depicts vertices bonds) (labels : List Value) :
    (s.induced labels).Depicts (vertices ∩ Value.keys labels)
      {bond ∈ bonds | ∀ k ∈ bond, k ∈ vertices ∩ Value.keys labels} := by
  have distinct : ((s.nodes.toList.filter (·.isIn labels)).map Value.key).Nodup :=
    depicts.valid.labels.sublist (List.filter_sublist.map _)
  have keys : Value.keys (s.nodes.toList.filter (·.isIn labels)) = vertices ∩ Value.keys labels := by
    rw [← depicts.vertices]
    ext k
    simp only [Value.keys, List.mem_filter, Value.isIn_iff, List.mem_map, Set.mem_inter_iff, Set.mem_ofPred_eq]
    constructor
    · rintro ⟨label, ⟨old, other, listed, same⟩, rfl⟩
      exact ⟨⟨label, old, rfl⟩, other, listed, same⟩
    · rintro ⟨⟨label, old, rfl⟩, other, listed, same⟩
      exact ⟨label, ⟨old, other, listed, same⟩, rfl⟩
  have whole : s.bondsWithin (vertices ∩ Value.keys labels) s.bonds.toList =
      {bond ∈ bonds | ∀ k ∈ bond, k ∈ vertices ∩ Value.keys labels} := by
    ext bond
    refine and_congr_left fun _ => ?_
    rw [← depicts.bonds]
    constructor
    · rintro ⟨link, listed, rfl⟩
      exact ⟨_, mem_edgeSet_toGraph_iff.mpr ⟨link, listed, rfl⟩, rfl⟩
    · rintro ⟨pair, joined, rfl⟩
      obtain ⟨link, listed, rfl⟩ := mem_edgeSet_toGraph_iff.mp joined
      exact ⟨link, listed, rfl⟩
  have start := Depicts.of_labels distinct
  rw [keys] at start
  have folded := start.foldl_inside (s := s) s.bonds.toList
  rwa [Set.empty_union, whole] at folded

/-! ## Connection -/

namespace Depicts

variable (depicts : s.Depicts vertices bonds)

include depicts

/-- Steps along the pairs of a plain graph are steps between keys. -/
theorem reachable_iff (first : i < s.size) (second : j < s.size) :
    (keyGraph bonds vertices).Reachable ⟨s.keyAt i, depicts.keyAt_mem first⟩ ⟨s.keyAt j, depicts.keyAt_mem second⟩ ↔
      Joined s.toGraph.edgeSet i j := by
  constructor
  · intro reached
    have along : ∀ k : vertices, (keyGraph bonds vertices).Reachable ⟨s.keyAt i, depicts.keyAt_mem first⟩ k →
        ∃ j < s.size, s.keyAt j = k ∧ Joined s.toGraph.edgeSet i j := by
      intro k reached
      rw [SimpleGraph.reachable_iff_reflTransGen] at reached
      induction reached with
      | refl => exact ⟨i, first, rfl, .refl _ i⟩
      | @tail u v _ adjacent ih =>
        obtain ⟨a, inside, same, joined⟩ := ih
        obtain ⟨b, within, other⟩ := depicts.mem_vertices_iff.mp v.2
        refine ⟨b, within, other, joined.tail ?_⟩
        have bond := (keyGraph_adj.mp adjacent).1
        rwa [← same, ← other, depicts.keyAt_bond_iff inside within] at bond
    obtain ⟨a, inside, same, joined⟩ := along _ reached
    obtain rfl := depicts.keyAt_inj inside second same
    exact joined
  · intro joined
    induction joined with
    | refl => exact .refl _
    | @tail a b _ edge ih =>
      obtain ⟨inside, within⟩ := depicts.valid.lt_size edge
      by_cases same : s.keyAt a = s.keyAt b
      · obtain rfl := depicts.keyAt_inj inside within same
        exact ih inside
      · refine (ih inside).trans (SimpleGraph.Adj.reachable (keyGraph_adj.mpr ⟨?_, fun equal => same ?_⟩))
        · exact (depicts.keyAt_bond_iff inside within).mpr edge
        · exact Subtype.ext_iff.mp equal

theorem isConnected_iff (nonempty : s.size ≠ 0) :
    s.isConnected = true ↔ (keyGraph bonds vertices).Connected := by
  rw [Skeleton.isConnected_iff depicts.valid (Nat.pos_of_ne_zero nonempty), SimpleGraph.connected_iff]
  constructor
  · intro joined
    refine ⟨fun u v => ?_, ⟨_, depicts.keyAt_mem (Nat.pos_of_ne_zero nonempty)⟩⟩
    obtain ⟨k, first⟩ := u
    obtain ⟨l, second⟩ := v
    obtain ⟨i, inside, rfl⟩ := depicts.mem_vertices_iff.mp first
    obtain ⟨j, within, rfl⟩ := depicts.mem_vertices_iff.mp second
    exact (depicts.reachable_iff inside within).mpr (joined i inside j within)
  · exact fun connected i first j second => (depicts.reachable_iff first second).mp (connected.1 _ _)

/-! ## Trees -/

theorem card_vertices : Nat.card vertices = s.size := by
  have whole : vertices = ((Finset.range s.size).image s.keyAt : Finset Key) := by
    ext k
    simp [depicts.mem_vertices_iff]
  rw [Nat.card_coe_set_eq, whole, Set.ncard_coe_finset, Finset.card_image_of_injOn, Finset.card_range]
  intro i first j second
  exact depicts.keyAt_inj (Finset.mem_range.mp (Finset.mem_coe.mp first))
    (Finset.mem_range.mp (Finset.mem_coe.mp second))

theorem ncard_bonds : bonds.ncard = s.bonds.size := by
  have distinct : Set.InjOn (Sym2.map s.keyAt) s.toGraph.edgeSet :=
    injOn_sym2_map (fun _ _ member => depicts.valid.lt_size (Finset.mem_coe.mp member))
      fun _ _ first second => depicts.keyAt_inj first second
  rw [← depicts.bonds, distinct.ncard_image, Set.ncard_coe_finset, card_edgeSet depicts.valid]

theorem finite_bonds : bonds.Finite := by
  rw [← depicts.bonds]
  exact s.toGraph.edgeSet.finite_toSet.image _

/-- The edges are the pairs that are no loops. -/
theorem card_edgeSet : Nat.card (keyGraph bonds vertices).edgeSet = {bond ∈ bonds | ¬ bond.IsDiag}.ncard := by
  rw [Nat.card_coe_set_eq, ← Set.ncard_image_of_injective _ (Sym2.map.injective Subtype.val_injective)]
  congr 1
  ext bond
  constructor
  · rintro ⟨pair, member, rfl⟩
    induction pair with
    | _ u v =>
      obtain ⟨joined, differ⟩ := keyGraph_adj.mp member
      exact ⟨joined, fun loop => differ (Subtype.ext loop)⟩
  · rintro ⟨joined, differ⟩
    have among := depicts.mem_of_mem_bonds joined
    induction bond with
    | _ k l =>
      refine ⟨s(⟨k, among k (Sym2.mem_mk_left k l)⟩, ⟨l, among l (Sym2.mem_mk_right k l)⟩), ?_, rfl⟩
      exact keyGraph_adj.mpr ⟨joined, fun same => differ (Subtype.ext_iff.mp same)⟩

/-- A plain graph is a tree if it joins its keys to one, by pairs of different keys. -/
theorem isTree_iff (nonempty : s.size ≠ 0) :
    s.isTree = true ↔ (∀ bond ∈ bonds, ¬ bond.IsDiag) ∧ (keyGraph bonds vertices).IsTree := by
  have finite : Finite vertices := by
    refine Nat.finite_of_card_ne_zero ?_
    rwa [depicts.card_vertices]
  rw [isTree, Bool.and_eq_true, beq_iff_eq, depicts.isConnected_iff nonempty,
    SimpleGraph.isTree_iff_connected_and_card, depicts.card_vertices, depicts.card_edgeSet, ← depicts.ncard_bonds]
  constructor
  · rintro ⟨connected, count⟩
    -- A connected graph has too many edges for one of the pairs to be a loop.
    have enough := connected.card_vert_le_card_edgeSet_add_one
    rw [depicts.card_vertices, depicts.card_edgeSet, ← count, Nat.add_le_add_iff_right] at enough
    have whole := Set.eq_of_subset_of_ncard_le (Set.sep_subset bonds fun bond => ¬ bond.IsDiag) enough
      depicts.finite_bonds
    refine ⟨fun bond member => ?_, connected, ?_⟩
    · rw [← whole] at member
      exact member.2
    · rw [whole, count]
  · rintro ⟨loopless, connected, count⟩
    rw [Set.sep_eq_self_iff_mem_true.mpr loopless] at count
    exact ⟨connected, count⟩

end Depicts

end Skeleton

end SteinerTrees
