import SteinerTrees.Graph.Skeleton
import SteinerTrees.Proofs.Graph.Built
import SteinerTrees.Proofs.Graph.Subgraph

/-! # Plain graphs as copies

A plain graph is a graph whose links have no names. The plain graph of a solution is a copy of a part of the
graph of the instance: its nodes stand for different vertices, its pairs for edges, and it is connected exactly
if those edges join its vertices. -/

namespace SteinerTrees

variable {g : Graph} {s : Skeleton} {edges more : Edges} {a b : Value} {labels : Value × Value}
  {i j u v : Nat}

/-- Pairs of different numbers stay different if the numbers do. -/
theorem injOn_sym2_map {α : Type} {f : Nat → α} {pairs : Set (Sym2 Nat)} {inside : Nat → Prop}
    (within : ∀ i j, s(i, j) ∈ pairs → inside i ∧ inside j) (inj : ∀ i j, inside i → inside j → f i = f j → i = j) :
    Set.InjOn (Sym2.map f) pairs := by
  intro first left second right
  induction first with
  | _ a b =>
    induction second with
    | _ c d =>
      obtain ⟨a_in, b_in⟩ := within a b left
      obtain ⟨c_in, d_in⟩ := within c d right
      intro same
      rw [Sym2.map_mk, Sym2.map_mk, Sym2.eq_iff] at same
      rcases same with ⟨start, stop⟩ | ⟨start, stop⟩
      · rw [inj a c a_in c_in start, inj b d b_in d_in stop]
      · rw [inj a d a_in d_in start, inj b c b_in c_in stop, Sym2.eq_swap]

namespace Skeleton

/-- A plain graph as a graph. -/
def toGraph (s : Skeleton) : Graph := ⟨s.nodes, s.bonds.map fun bond => ⟨.null, bond.ends.1, bond.ends.2⟩⟩

theorem size_toGraph (s : Skeleton) : s.toGraph.size = s.size := rfl

theorem pairs_toGraph (s : Skeleton) : s.toGraph.pairs = s.pairs.map fun pair => s(pair.1, pair.2) := by
  rw [Graph.pairs, toGraph, Array.toList_map, List.map_map, pairs, List.map_map]
  rfl

theorem mem_edgeSet_toGraph_iff {pair : Sym2 Nat} :
    pair ∈ s.toGraph.edgeSet ↔ ∃ bond ∈ s.bonds.toList, s(bond.ends.1, bond.ends.2) = pair := by
  rw [Graph.edgeSet, List.mem_toFinset, pairs_toGraph, pairs, List.map_map, List.mem_map]
  rfl

theorem toGraph_of_nodes (nodes : Array Value) : ({ nodes := nodes } : Skeleton).toGraph = ⟨nodes, #[]⟩ := by
  rw [toGraph, Array.map_empty]

theorem wellFormed_of_nodes {nodes : Array Value} (distinct : (nodes.toList.map Value.key).Nodup) :
    ({ nodes := nodes } : Skeleton).toGraph.WellFormed := by
  rw [toGraph_of_nodes]
  exact ⟨distinct, fun _ member => absurd member List.not_mem_nil, List.nodup_nil⟩

theorem edgeSet_of_nodes (nodes : Array Value) : ({ nodes := nodes } : Skeleton).toGraph.edgeSet = ∅ := by
  rw [toGraph_of_nodes]
  rfl

theorem hasPair_iff : s.hasPair u v = true ↔ s(u, v) ∈ s.toGraph.edgeSet := by
  rw [mem_edgeSet_toGraph_iff, hasPair, Array.any_eq_true]
  simp only [isPair, Bool.or_eq_true, decide_eq_true_eq, Array.mem_toList_iff, Array.mem_iff_getElem, Sym2.eq_iff,
    Prod.ext_iff]
  constructor
  · rintro ⟨i, inside, same⟩
    exact ⟨_, ⟨i, inside, rfl⟩, same⟩
  · rintro ⟨bond, ⟨i, inside, rfl⟩, same⟩
    exact ⟨i, inside, same⟩

theorem adjacency_toGraph (s : Skeleton) : s.toGraph.adjacency = s.adjacency := by
  have opposite : ∀ v : Nat, ∀ bond : Bond, (bond.opposite? v).map (·.1) =
      Link.other? ⟨.null, bond.ends.1, bond.ends.2⟩ v := by
    intro v bond
    unfold Bond.opposite? Link.other?
    dsimp only
    split_ifs <;> rfl
  have neighbors : ∀ v, s.toGraph.neighbors v = (s.neighbors v).map (·.1) := by
    intro v
    rw [Graph.neighbors, Skeleton.neighbors, toGraph, Array.toList_map, List.filterMap_map,
      List.map_filterMap]
    exact congrArg (List.filterMap · _) (funext fun bond => (opposite v bond).symm)
  rw [Graph.adjacency, adjacency, Graph.vertices, size_toGraph]
  exact congrArg List.toArray (List.map_congr_left fun v _ => neighbors v)

/-- A plain graph with nodes is connected if its pairs join all of them. -/
theorem isConnected_iff (valid : s.toGraph.WellFormed) (nonempty : 0 < s.size) : s.isConnected = true ↔
    ∀ i < s.size, ∀ j < s.size, Joined s.toGraph.edgeSet i j := by
  rw [isConnected, ← adjacency_toGraph, valid.isConnected_iff nonempty, size_toGraph]
  constructor
  · exact fun joined i first j second => (joined i first).symm.trans (joined j second)
  · exact fun joined => joined 0 nonempty

theorem card_edgeSet (valid : s.toGraph.WellFormed) : s.toGraph.edgeSet.card = s.bonds.size := by
  rw [Graph.edgeSet, List.toFinset_card_of_nodup valid.pairs, pairs_toGraph, List.length_map, pairs,
    List.length_map, Array.length_toList]

/-! ## Joining -/

theorem nodes_join (s : Skeleton) (bond : Bond) : (s.join bond).nodes = s.nodes := by
  unfold join
  split_ifs <;> rfl

theorem toGraph_join (fresh : s(i, j) ∉ s.toGraph.edgeSet) (labels : Value × Value) :
    (s.join ⟨(i, j), labels⟩).toGraph = s.toGraph.link .null i j := by
  rw [join, if_neg fun joined => fresh (hasPair_iff.mp joined), toGraph, Array.map_push]
  rfl

theorem wellFormed_join (valid : s.toGraph.WellFormed) (first : i < s.size) (second : j < s.size)
    (labels : Value × Value) :
    (s.join ⟨(i, j), labels⟩).toGraph.WellFormed := by
  by_cases old : s(i, j) ∈ s.toGraph.edgeSet
  · rwa [join, if_pos (hasPair_iff.mpr old)]
  · rw [toGraph_join old]
    exact valid.link first second old

theorem edgeSet_join (s : Skeleton) (i j : Nat) (labels : Value × Value) :
    (s.join ⟨(i, j), labels⟩).toGraph.edgeSet = insert s(i, j) s.toGraph.edgeSet := by
  by_cases old : s(i, j) ∈ s.toGraph.edgeSet
  · rw [join, if_pos (hasPair_iff.mpr old), Finset.insert_eq_of_mem old]
  · rw [toGraph_join old, Graph.edgeSet_link]

theorem addNode_of_contains (hashable : a.isHashable = true) (found : s.indexOf? a = some i) :
    s.addNode a = .ok s := by
  have there : s.contains a = true := by rw [contains, found]; rfl
  simp only [addNode, Value.asLabel_of_isHashable hashable, bind, Except.bind, if_pos there]
  rfl

theorem addPair_of_contains (first : a.isHashable = true) (second : b.isHashable = true)
    (source : s.indexOf? a = some i)
    (target : s.indexOf? b = some j) : s.addPair a b = .ok (s.join ⟨(i, j), (a, b)⟩) := by
  simp only [addPair, addNode_of_contains first source, addNode_of_contains second target, bind, Except.bind,
    source, target]
  rfl

/-! ## Copies -/

/-- The vertex of a graph that a node stands for. -/
def place (s : Skeleton) (g : Graph) (i : Nat) : Nat := (g.indexOf? (s.node i)).getD 0

/-- The nodes of a plain graph stand for vertices of a graph, and its pairs for some edges. -/
structure Copies (s : Skeleton) (g : Graph) (edges : Edges) : Prop where
  valid : s.toGraph.WellFormed
  known : ∀ i < s.size, g.indexOf? (s.node i) = some (s.place g i)
  edges : s.toGraph.edgeSet.image (Sym2.map (s.place g)) = edges

namespace Copies

theorem place_inj (copies : s.Copies g edges) (first : i < s.size) (second : j < s.size)
    (same : s.place g i = s.place g j) :
    i = j := by
  have left := (Graph.indexOf?_spec (copies.known i first)).2
  have right := (Graph.indexOf?_spec (copies.known j second)).2
  rw [same] at left
  exact copies.valid.eq_of_key_eq first second (left.symm.trans right)

/-- As many edges as pairs. -/
theorem card_edges (copies : s.Copies g edges) : edges.card = s.bonds.size := by
  rw [← copies.edges, Finset.card_image_of_injOn, card_edgeSet copies.valid]
  exact injOn_sym2_map (fun _ _ member => copies.valid.lt_size (Finset.mem_coe.mp member))
    fun _ _ first second => copies.place_inj first second

theorem edges_within (copies : s.Copies g edges) :
    ∀ edge ∈ edges, ∀ v ∈ edge, ∃ i < s.size, v = s.place g i := by
  rw [← copies.edges]
  intro edge member v endpoint
  obtain ⟨pair, old, rfl⟩ := Finset.mem_image.mp member
  induction pair with
  | _ a b =>
    obtain ⟨a_in, b_in⟩ := copies.valid.lt_size old
    rcases Sym2.mem_iff.mp endpoint with rfl | rfl
    · exact ⟨a, a_in, rfl⟩
    · exact ⟨b, b_in, rfl⟩

/-- Steps along the edges are steps along the pairs. -/
theorem joined_iff (copies : s.Copies g edges) (first : i < s.size) (second : j < s.size) :
    Joined edges (s.place g i) (s.place g j) ↔ Joined s.toGraph.edgeSet i j := by
  constructor
  · intro joined
    have along : ∀ v, Joined edges (s.place g i) v → ∃ k < s.size, v = s.place g k ∧
      Joined s.toGraph.edgeSet i k := by
      intro v joined
      induction joined with
      | refl => exact ⟨i, first, rfl, .refl _ i⟩
      | @tail _ w _ edge ih =>
        obtain ⟨k, inside, rfl, before⟩ := ih
        rw [← copies.edges] at edge
        obtain ⟨pair, old, same⟩ := Finset.mem_image.mp edge
        induction pair with
        | _ a b =>
          obtain ⟨a_in, b_in⟩ := copies.valid.lt_size old
          rw [Sym2.map_mk, Sym2.eq_iff] at same
          rcases same with ⟨start, stop⟩ | ⟨stop, start⟩
          · obtain rfl := copies.place_inj a_in inside start
            exact ⟨b, b_in, stop.symm, before.tail old⟩
          · obtain rfl := copies.place_inj b_in inside start
            exact ⟨a, a_in, stop.symm, before.tail (Sym2.eq_swap ▸ old)⟩
    obtain ⟨k, inside, same, reached⟩ := along _ joined
    obtain rfl := copies.place_inj second inside same
    exact reached
  · intro joined
    have step : ∀ a b : Nat, s(a, b) ∈ s.toGraph.edgeSet → s(s.place g a, s.place g b) ∈ edges := by
      intro a b pair
      rw [← copies.edges]
      exact Finset.mem_image.mpr ⟨_, pair, rfl⟩
    exact Relation.ReflTransGen.lift (s.place g) step _ _ joined

/-- A copy is connected exactly if its edges join its vertices. -/
theorem isConnected_iff (copies : s.Copies g edges) (nonempty : 0 < s.size) : s.isConnected = true ↔
    ∀ i < s.size, ∀ j < s.size, Joined edges (s.place g i) (s.place g j) := by
  rw [Skeleton.isConnected_iff copies.valid nonempty]
  exact forall₂_congr fun i first => forall₂_congr fun j second => (copies.joined_iff first second).symm

/-- Joining two nodes adds one edge. -/
theorem join (copies : s.Copies g edges) (first : i < s.size) (second : j < s.size) (labels : Value × Value) :
    (s.join ⟨(i, j), labels⟩).Copies g (insert s(s.place g i, s.place g j) edges) := by
  have same : (s.join ⟨(i, j), labels⟩).place g = s.place g := by
    funext k
    rw [place, place, node, node, nodes_join]
  refine ⟨wellFormed_join copies.valid first second labels, ?_, ?_⟩
  · intro k inside
    rw [same, node, nodes_join]
    apply copies.known k
    rwa [Skeleton.size, nodes_join] at inside
  · rw [same, edgeSet_join, Finset.image_insert, copies.edges]
    rfl

end Copies

end Skeleton

end SteinerTrees
