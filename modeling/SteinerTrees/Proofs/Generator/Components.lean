import Mathlib.Data.List.Sort
import SteinerTrees.Generator.Basic
import SteinerTrees.Proofs.Generator.Layouts
import SteinerTrees.Proofs.Graph.Hops
import SteinerTrees.Proofs.Graph.WellFormed

/-! # The first of the largest components

A layout is the graph of its numbers. The search for components starts at each node that no earlier start has reached,
so each component is found from its lowest node, and components are found in the order of these. Of the components of
the largest size, the first one is kept. -/

namespace SteinerTrees.Layout

variable {layout : Layout} {u v w root size : Nat} {edge : Nat × Nat} {found rest : List (List Nat)}
  {largest : List Nat}

/-! ## The graph of a layout -/

/-- The name of an edge, which shows both of its ends. -/
def edgeName (edge : Nat × Nat) : Value := .text s!"{(Value.int edge.1).display}-{(Value.int edge.2).display}"

/-- The link that is made for an edge. -/
def linkOf (edge : Nat × Nat) : Link := ⟨edgeName edge, edge.1, edge.2⟩

/-- The graph of a layout, with the numbers for labels. -/
def graph (layout : Layout) : Graph := ⟨(Value.numbers layout.size).toArray, (layout.edges.map linkOf).toArray⟩

@[simp] theorem size_graph : layout.graph.size = layout.size := by
  simp [graph, Graph.size]

theorem wellFormed_graph (simple : layout.Simple) : layout.graph.WellFormed where
  labels := Value.nodup_key_numbers layout.size
  ends := by
    rw [size_graph]
    exact List.forall_mem_map.mpr simple.inside
  pairs := by
    rw [Graph.pairs, graph, List.map_map]
    exact simple.pairs

/-- An edge joins its ends in both orders. -/
theorem mem_edgeSet_graph : s(u, v) ∈ layout.graph.edgeSet ↔ (u, v) ∈ layout.edges ∨ (v, u) ∈ layout.edges := by
  rw [Graph.mem_edgeSet_iff]
  constructor
  · rintro ⟨_, member, same⟩
    obtain ⟨⟨a, b⟩, listed, rfl⟩ := List.mem_map.mp member
    rcases Sym2.eq_iff.mp same with ⟨rfl, rfl⟩ | ⟨rfl, rfl⟩
    · exact .inl listed
    · exact .inr listed
  · rintro (forth | back)
    · exact ⟨_, List.mem_map_of_mem forth, rfl⟩
    · exact ⟨_, List.mem_map_of_mem back, Sym2.eq_swap⟩

theorem adjacency_graph (layout : Layout) : layout.graph.adjacency = layout.adjacency := by
  have neighbors (v : Nat) : layout.graph.neighbors v = layout.edges.filterMap (opposite? v) := by
    rw [Graph.neighbors, graph, List.filterMap_map]
    rfl
  rw [Graph.adjacency, Graph.vertices, size_graph, adjacency]
  exact congrArg List.toArray (List.map_congr_left fun v _ => neighbors v)

/-! ## Components -/

/-- The nodes that steps along edges lead to from a node. -/
def component (layout : Layout) (v : Nat) : List Nat := Hops.reached layout.adjacency v

open scoped Classical in
theorem component_eq (simple : layout.Simple) (inside : u < layout.size) :
    layout.component u = (List.range layout.size).filter fun v => Joined layout.graph.edgeSet u v := by
  have valid := wellFormed_graph simple
  have bounded : Hops.Bounded layout.graph.adjacency := by
    intro u v near
    rw [Graph.adjacency_size]
    exact (valid.lt_size (valid.mem_adjacency_iff.mp near)).2
  rw [component, ← adjacency_graph, Hops.reached, Graph.adjacency_size, size_graph]
  refine List.filter_congr fun v _ => Bool.eq_iff_iff.mpr ?_
  rw [Option.isSome_iff_exists, Hops.exists_visit_iff bounded (by rwa [Graph.adjacency_size, size_graph]),
    decide_eq_true_eq]
  simp only [valid.mem_adjacency_iff]
  rfl

open scoped Classical in
theorem mem_component_iff (simple : layout.Simple) (inside : u < layout.size) :
    v ∈ layout.component u ↔ v < layout.size ∧ Joined layout.graph.edgeSet u v := by
  rw [component_eq simple inside, List.mem_filter, List.mem_range, decide_eq_true_eq]

theorem mem_component_self (simple : layout.Simple) (inside : u < layout.size) : u ∈ layout.component u :=
  (mem_component_iff simple inside).mpr ⟨inside, .refl _ u⟩

open scoped Classical in
/-- All nodes of a component have the same component. -/
theorem component_congr (simple : layout.Simple) (inside : u < layout.size) (member : v ∈ layout.component u) :
    layout.component v = layout.component u := by
  obtain ⟨bound, joined⟩ := (mem_component_iff simple inside).mp member
  rw [component_eq simple inside, component_eq simple bound]
  refine List.filter_congr fun w _ => decide_eq_decide.mpr ?_
  exact ⟨fun other => joined.trans other, fun other => joined.symm.trans other⟩

/-- A node that no lower one leads to. -/
def IsLowest (layout : Layout) (v : Nat) : Prop := ∀ u < v, v ∉ layout.component u

instance (layout : Layout) (v : Nat) : Decidable (layout.IsLowest v) :=
  inferInstanceAs (Decidable (∀ u < v, v ∉ layout.component u))

/-- Every node lies in the component of a lowest one. -/
theorem exists_lowest (simple : layout.Simple) (inside : v < layout.size) :
    ∃ u ≤ v, layout.IsLowest u ∧ v ∈ layout.component u := by
  induction v using Nat.strongRecOn with
  | ind v ih =>
    by_cases lowest : layout.IsLowest v
    · exact ⟨v, le_rfl, lowest, mem_component_self simple inside⟩
    · obtain ⟨u, below, member⟩ : ∃ u < v, v ∈ layout.component u := by
        simpa only [IsLowest, not_forall, not_not, exists_prop] using lowest
      obtain ⟨root, least, found, here⟩ := ih u below (below.trans inside)
      have same := component_congr simple (by omega) here
      exact ⟨root, by omega, found, same ▸ member⟩

/-- One component is found for each lowest node. -/
theorem components_eq (simple : layout.Simple) :
    layout.components = ((List.range layout.size).filter (layout.IsLowest ·)).map layout.component := by
  -- The search has found the components of the lowest nodes among those it has looked at.
  have run : ∀ k ≤ layout.size, (List.range k).foldl (fun found v =>
      if found.any (v ∈ ·) then found else found ++ [layout.component v]) [] =
      ((List.range k).filter (layout.IsLowest ·)).map layout.component := by
    intro k bound
    induction k with
    | zero => rfl
    | succ k ih =>
      have reached : (((List.range k).filter (layout.IsLowest ·)).map layout.component).any (k ∈ ·) = true ↔
          ¬ layout.IsLowest k := by
        simp only [List.any_map, List.any_eq_true, List.mem_filter, List.mem_range, decide_eq_true_eq,
          Function.comp_apply]
        constructor
        · exact fun ⟨u, ⟨below, _⟩, member⟩ lowest => lowest u below member
        · intro other
          obtain ⟨u, least, lowest, member⟩ := exists_lowest simple (v := k) bound
          exact ⟨u, ⟨lt_of_le_of_ne least fun same => other (same ▸ lowest), lowest⟩, member⟩
      rw [List.range_succ, List.foldl_append, List.foldl_cons, List.foldl_nil, ih (by omega), List.filter_append,
        List.map_append, List.filter_singleton]
      by_cases lowest : layout.IsLowest k
      · rw [if_neg (fun there => reached.mp there lowest), decide_eq_true lowest, cond_true, List.map_singleton]
      · rw [if_pos (reached.mpr lowest), decide_eq_false lowest, cond_false, List.map_nil, List.append_nil]
  exact run layout.size le_rfl

/-! ## The largest -/

/-- What is kept of lists is the first of the longest. -/
theorem foldl_longer (largest : List Nat) (rest : List (List Nat)) : ∃ before after,
    largest :: rest = before ++ rest.foldl longer largest :: after ∧
      (∀ other ∈ before, other.length < (rest.foldl longer largest).length) ∧
      ∀ other ∈ after, other.length ≤ (rest.foldl longer largest).length := by
  induction rest using List.reverseRecOn with
  | nil => exact ⟨[], [], rfl, by simp, by simp⟩
  | append_singleton rest next ih =>
    obtain ⟨before, after, same, shorter, others⟩ := ih
    rw [List.foldl_append, List.foldl_cons, List.foldl_nil, longer]
    split
    next longer =>
      refine ⟨largest :: rest, [], by simp, fun other member => ?_, by simp⟩
      rw [same] at member
      rcases List.mem_append.mp member with front | member
      · exact (shorter other front).trans longer
      · rcases List.mem_cons.mp member with rfl | back
        · exact longer
        · exact (others other back).trans_lt longer
    next kept =>
      refine ⟨before, after ++ [next], by rw [← List.cons_append, same]; simp, shorter, fun other member => ?_⟩
      rcases List.mem_append.mp member with old | new
      · exact others other old
      · rw [List.mem_singleton.mp new]
        omega

/-- The node whose component is the largest; of several components of one size, that of the lowest node. -/
structure IsRoot (layout : Layout) (root : Nat) : Prop where
  inside : root < layout.size
  largest : ∀ v < layout.size, (layout.component v).length ≤ (layout.component root).length
  first : ∀ v < root, (layout.component v).length < (layout.component root).length

theorem largestComponent_spec (simple : layout.Simple) (nonempty : 0 < layout.size) :
    ∃ root, layout.IsRoot root ∧ layout.largestComponent = layout.component root := by
  obtain ⟨before, after, same, shorter, others⟩ := foldl_longer [] layout.components
  rw [← largestComponent] at same shorter others
  have lowest : layout.component 0 ∈ layout.components := by
    rw [components_eq simple]
    refine List.mem_map_of_mem (List.mem_filter.mpr ⟨List.mem_range.mpr nonempty, ?_⟩)
    exact decide_eq_true fun u below => absurd below (Nat.not_lt_zero u)
  have occupied := List.length_pos_of_mem (mem_component_self simple nonempty)
  cases before with
  | nil =>
    obtain ⟨empty, rfl⟩ := List.cons.inj same
    have bound := others _ lowest
    rw [← empty, List.length_nil] at bound
    omega
  | cons first before =>
    obtain ⟨rfl, split⟩ := List.cons.inj same
    rw [components_eq simple] at split
    obtain ⟨lower, higher, roots, rfl, found⟩ := List.map_eq_append_iff.mp split
    obtain ⟨root, above, rfl, here, rfl⟩ := List.map_eq_cons_iff.mp found
    rw [← here] at shorter others
    have ascending : (lower ++ root :: above).Pairwise (· < ·) :=
      roots ▸ List.pairwise_lt_range.filter _
    have listed (u : Nat) : u ∈ lower ++ root :: above ↔ u < layout.size ∧ layout.IsLowest u := by
      rw [← roots, List.mem_filter, List.mem_range, decide_eq_true_eq]
    have inside := ((listed root).mp (List.mem_append_right _ List.mem_cons_self)).1
    have above_root : ∀ u ∈ above, root < u :=
      (List.pairwise_cons.mp (List.pairwise_append.mp ascending).2.1).1
    refine ⟨root, ⟨inside, fun v bound => ?_, fun v bound => ?_⟩, here.symm⟩
    · obtain ⟨u, least, isLowest, member⟩ := exists_lowest simple bound
      rw [component_congr simple (by omega) member]
      rcases List.mem_append.mp ((listed u).mpr ⟨by omega, isLowest⟩) with front | member
      · exact (shorter _ (List.mem_cons_of_mem _ (List.mem_map_of_mem front))).le
      · rcases List.mem_cons.mp member with rfl | back
        · exact le_rfl
        · exact others _ (List.mem_map_of_mem back)
    · obtain ⟨u, least, isLowest, member⟩ := exists_lowest simple (bound.trans inside)
      rw [component_congr simple (by omega) member]
      rcases List.mem_append.mp ((listed u).mpr ⟨by omega, isLowest⟩) with front | member
      · exact shorter _ (List.mem_cons_of_mem _ (List.mem_map_of_mem front))
      · rcases List.mem_cons.mp member with rfl | back
        · omega
        · have := above_root u back
          omega

/-! ## Components as sets -/

/-- The nodes that steps along edges lead to from one of them, in ascending order. -/
structure IsComponent (layout : Layout) (nodes : List Nat) : Prop where
  ascending : nodes.Pairwise (· < ·)
  joined : ∃ root < layout.size, ∀ v, v ∈ nodes ↔ v < layout.size ∧ Joined layout.graph.edgeSet root v

/-- A largest component, of several the one with the lowest node. -/
structure IsFirstLargest (layout : Layout) (nodes : List Nat) : Prop where
  component : layout.IsComponent nodes
  largest : ∀ other, layout.IsComponent other → other.length ≤ nodes.length
  first : ∀ other, layout.IsComponent other → other.length = nodes.length → ∀ v ∈ other, ∃ u ∈ nodes, u ≤ v

theorem isComponent_component (simple : layout.Simple) (inside : u < layout.size) :
    layout.IsComponent (layout.component u) where
  ascending := List.pairwise_lt_range.filter _
  joined := ⟨u, inside, fun _ => mem_component_iff simple inside⟩

/-- A component is that of each of its nodes. -/
theorem IsComponent.eq_component {nodes : List Nat} (component : layout.IsComponent nodes) (simple : layout.Simple) :
    nodes ≠ [] ∧ ∀ v ∈ nodes, v < layout.size ∧ layout.component v = nodes := by
  obtain ⟨ascending, root, inside, joined⟩ := component
  have same : layout.component root = nodes := by
    refine (isComponent_component simple inside).ascending.eq_of_mem_iff ascending fun v => ?_
    rw [mem_component_iff simple inside, joined]
  subst same
  refine ⟨List.ne_nil_of_mem (mem_component_self simple inside), fun v member => ⟨?_, ?_⟩⟩
  · exact ((mem_component_iff simple inside).mp member).1
  · exact component_congr simple inside member

/-- What the search for the largest component comes to. -/
theorem isFirstLargest_largestComponent (simple : layout.Simple) (nonempty : 0 < layout.size) :
    layout.IsFirstLargest layout.largestComponent := by
  obtain ⟨root, isRoot, same⟩ := largestComponent_spec simple nonempty
  rw [same]
  refine ⟨isComponent_component simple isRoot.inside, fun other component => ?_, fun other component tie v member => ?_⟩
  · obtain ⟨occupied, members⟩ := component.eq_component simple
    obtain ⟨v, member⟩ := List.exists_mem_of_ne_nil other occupied
    obtain ⟨inside, rfl⟩ := members v member
    exact isRoot.largest v inside
  · obtain ⟨inside, rfl⟩ := (component.eq_component simple).2 v member
    refine ⟨root, mem_component_self simple isRoot.inside, Nat.le_of_not_lt fun below => ?_⟩
    exact (isRoot.first v below).ne tie

end SteinerTrees.Layout
