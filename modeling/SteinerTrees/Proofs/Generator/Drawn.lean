import Mathlib.Data.List.GetD
import SteinerTrees.Generator.Basic
import SteinerTrees.Proofs.Generator.Layouts
import SteinerTrees.Proofs.Graph.Mirror

/-! # Plain graphs from their pairs

A plain graph is drawn from labels and the pairs of numbers that it joins. It is listed with each pair at the lower end
of it, so that other labels leave the pairs as they are, in the order in which they were listed. Labels that are in
order get the numbers of their places. -/

namespace SteinerTrees

variable {labels : List Value} {pairs done more : List (Nat × Nat)} {f : Value → Value} {size u v : Nat}

namespace Layout

theorem opposite?_eq_some_iff {edge : Nat × Nat} : opposite? u edge = some v ↔ s(edge.1, edge.2) = s(u, v) :=
  @Link.other?_eq_some_iff ⟨.null, edge.1, edge.2⟩ u v

/-- The pairs of edges, listed at their lower ends. -/
def lowerFirst (size : Nat) (pairs : List (Nat × Nat)) : List (Nat × Nat) :=
  (List.range size).flatMap fun u => ((pairs.filterMap (opposite? u)).filter fun v => u ≤ v).map fun v => (u, v)

theorem mem_lowerFirst_iff : (u, v) ∈ lowerFirst size pairs ↔ u < size ∧ u ≤ v ∧ s(u, v) ∈ joinedPairs pairs := by
  simp only [lowerFirst, List.mem_flatMap, List.mem_range, List.mem_map, List.mem_filter, List.mem_filterMap,
    opposite?_eq_some_iff, decide_eq_true_eq, Prod.mk.injEq, joinedPairs]
  constructor
  · rintro ⟨a, inside, b, ⟨joined, le⟩, rfl, rfl⟩
    exact ⟨inside, le, joined⟩
  · rintro ⟨inside, le, joined⟩
    exact ⟨u, inside, v, ⟨joined, le⟩, rfl, rfl⟩

/-- Each edge of a layout is listed once, with the lower end first. -/
theorem Simple.ordered_lowerFirst (simple : (Layout.mk size pairs).Simple) : Ordered size (lowerFirst size pairs) := by
  refine ordered_flatMap (fun u inside => ⟨?_, ?_⟩) fun u _ => List.forall_mem_map.mpr fun v _ => rfl
  · refine List.forall_mem_map.mpr fun v member => ?_
    obtain ⟨joined, le⟩ := List.mem_filter.mp member
    obtain ⟨edge, listed, same⟩ := List.mem_filterMap.mp joined
    have ends := simple.inside edge listed
    have differ := simple.loopless edge listed
    have le := of_decide_eq_true le
    rcases Sym2.eq_iff.mp (opposite?_eq_some_iff.mp same) with ⟨rfl, rfl⟩ | ⟨rfl, rfl⟩
    · exact ⟨lt_of_le_of_ne le differ, ends.2⟩
    · exact ⟨lt_of_le_of_ne le differ.symm, ends.1⟩
  · refine (List.Nodup.filter _ ?_).map fun v w same => (Prod.mk.inj same).2
    refine List.pairwise_filterMap.mpr ((List.pairwise_map.mp simple.pairs).imp ?_)
    rintro edge other differ v first w second rfl
    exact differ ((opposite?_eq_some_iff.mp first).trans (opposite?_eq_some_iff.mp second).symm)

theorem Simple.mem_joinedPairs_lowerFirst (simple : (Layout.mk size pairs).Simple) {pair : Sym2 Nat} :
    pair ∈ joinedPairs (lowerFirst size pairs) ↔ pair ∈ joinedPairs pairs := by
  constructor
  · intro member
    obtain ⟨⟨u, v⟩, listed, rfl⟩ := List.mem_map.mp member
    exact (mem_lowerFirst_iff.mp listed).2.2
  · intro member
    obtain ⟨⟨a, b⟩, listed, rfl⟩ := List.mem_map.mp member
    obtain ⟨first, second⟩ := simple.inside (a, b) listed
    rcases Nat.le_total a b with le | le
    · exact List.mem_map.mpr ⟨(a, b), mem_lowerFirst_iff.mpr ⟨first, le, member⟩, rfl⟩
    · exact List.mem_map.mpr ⟨(b, a), mem_lowerFirst_iff.mpr ⟨second, le, Sym2.eq_swap ▸ member⟩, Sym2.eq_swap⟩

theorem Simple.length_lowerFirst (simple : (Layout.mk size pairs).Simple) :
    (lowerFirst size pairs).length = pairs.length := by
  have perm := (List.perm_ext_iff_of_nodup simple.ordered_lowerFirst.simple.pairs simple.pairs).mpr
    fun pair => simple.mem_joinedPairs_lowerFirst
  have length := perm.length_eq
  rwa [joinedPairs, joinedPairs, List.length_map, List.length_map] at length

end Layout

namespace Skeleton

open Layout (joinedPairs lowerFirst)

/-- Labels that can be the nodes of a plain graph, one by one. -/
structure AreNodes (labels : List Value) : Prop where
  hashable : ∀ label ∈ labels, label.isHashable = true
  present : ∀ label ∈ labels, label ≠ .null
  distinct : (labels.map Value.key).Nodup

theorem areNodes_numbers (count : Nat) : AreNodes (Value.numbers count) where
  hashable := Value.isHashable_of_mem_numbers
  present := List.forall_mem_map.mpr fun _ _ => nofun
  distinct := Value.nodup_key_numbers count

/-- The labels of a pair of nodes. -/
def labelsAt (labels : List Value) (pair : Nat × Nat) : Value × Value :=
  (labels.getD pair.1 .null, labels.getD pair.2 .null)

/-- The bond of a pair of nodes. -/
def bondAt (labels : List Value) (pair : Nat × Nat) : Bond := ⟨pair, labelsAt labels pair⟩

/-- The plain graph on some labels with some pairs. -/
def drawn (labels : List Value) (pairs : List (Nat × Nat)) : Skeleton :=
  ⟨labels.toArray, (pairs.map (bondAt labels)).toArray⟩

theorem size_drawn : (drawn labels pairs).size = labels.length := List.size_toArray

theorem node_drawn : (drawn labels pairs).node v = labels.getD v .null := by
  rw [node, drawn, Array.getD_eq_getD_getElem?, List.getElem?_toArray, List.getD_eq_getElem?_getD]

theorem addNodes_drawn (usable : AreNodes labels) : addNodes {} labels = .ok (drawn labels []) := by
  have distinct : (((#[] : Array Value).toList ++ labels).map Value.key).Nodup := usable.distinct
  rw [addNodes, foldlM_addNode usable.hashable usable.present distinct, Array.empty_append]
  rfl

theorem indexOf?_drawn (usable : AreNodes labels) (inside : v < labels.length) :
    (drawn labels pairs).indexOf? (labels.getD v .null) = some v := by
  have valid : (Skeleton.mk labels.toArray #[]).toGraph.WellFormed := wellFormed_of_nodes usable.distinct
  have node : (drawn labels pairs).node v = labels.getD v .null := node_drawn
  rw [← node]
  exact valid.indexOf?_label inside

theorem hasPair_drawn_iff : (drawn labels pairs).hasPair u v = true ↔ s(u, v) ∈ joinedPairs pairs := by
  have same : (drawn labels pairs).toGraph.pairs = joinedPairs pairs := by
    rw [pairs_toGraph, Skeleton.pairs, drawn, List.map_map, List.map_map]
    rfl
  rw [hasPair_iff, Graph.edgeSet, List.mem_toFinset, same]

theorem addPair_drawn (usable : AreNodes labels) {pair : Nat × Nat} (first : pair.1 < labels.length)
    (second : pair.2 < labels.length) (fresh : s(pair.1, pair.2) ∉ joinedPairs done) :
    (drawn labels done).addPair (labelsAt labels pair).1 (labelsAt labels pair).2 =
      .ok (drawn labels (done ++ [pair])) := by
  have hashable (k : Nat) (inside : k < labels.length) : (labels.getD k .null).isHashable = true := by
    rw [List.getD_eq_getElem labels .null inside]
    exact usable.hashable _ (List.getElem_mem inside)
  rw [labelsAt, addPair_of_contains (hashable _ first) (hashable _ second) (indexOf?_drawn usable first)
    (indexOf?_drawn usable second), join, if_neg fun joined => fresh (hasPair_drawn_iff.mp joined)]
  simp only [drawn, List.map_append, List.push_toArray]
  rfl

/-- Joining new pairs appends them. -/
theorem addPairs_drawn (usable : AreNodes labels) (done more : List (Nat × Nat))
    (simple : (Layout.mk labels.length (done ++ more)).Simple) :
    (drawn labels done).addPairs (more.map (labelsAt labels)) = .ok (drawn labels (done ++ more)) := by
  induction more generalizing done with
  | nil =>
    rw [List.append_nil]
    rfl
  | cons pair rest ih =>
    obtain ⟨first, second⟩ := simple.inside pair (List.mem_append_right _ List.mem_cons_self)
    have fresh : s(pair.1, pair.2) ∉ joinedPairs done := by
      have once := simple.pairs
      rw [joinedPairs, List.map_append] at once
      exact fun old => (List.nodup_append.mp once).2.2 _ old _ List.mem_cons_self rfl
    rw [List.append_cons] at simple ⊢
    rw [addPairs, List.map_cons, List.foldlM_cons, addPair_drawn usable first second fresh]
    exact ih _ simple

theorem neighbors_drawn : (drawn labels pairs).neighbors v =
    (pairs.filterMap (Layout.opposite? v)).map fun w => (w, labels.getD w .null) := by
  have opposite (pair : Nat × Nat) : (bondAt labels pair).opposite? v =
      (Layout.opposite? v pair).map fun w => (w, labels.getD w .null) := by
    change (if pair.1 = v then some (pair.2, labels.getD pair.2 .null)
      else if pair.2 = v then some (pair.1, labels.getD pair.1 .null) else none) = _
    unfold Layout.opposite?
    split_ifs <;> rfl
  rw [neighbors, drawn, List.filterMap_map, List.map_filterMap]
  exact congrArg (List.filterMap · pairs) (funext opposite)

/-- Behind all lower nodes, a node keeps the neighbours that are not lower. -/
theorem bondsAt_range' (s : Skeleton) {seen : List Nat} {first count : Nat} (lower : ∀ w, w ∈ seen ↔ w < first) :
    s.bondsAt seen ((List.range' first count).map fun v => (v, s.node v)) =
      (List.range' first count).flatMap fun v => ((s.neighbors v).filter fun next => v ≤ next.1).map
        fun next => ⟨(v, next.1), (s.node v, next.2)⟩ := by
  induction count generalizing seen first with
  | zero => rfl
  | succ count ih =>
    have next : ∀ w, w ∈ first :: seen ↔ w < first + 1 := by
      intro w
      rw [List.mem_cons, lower]
      omega
    have ahead : ((s.neighbors first).filter fun next => next.1 ∉ seen) =
        (s.neighbors first).filter fun next => first ≤ next.1 :=
      List.filter_congr fun next _ => by simp only [lower, not_lt]
    rw [List.range'_succ, List.map_cons, List.flatMap_cons, bondsAt, ih next, ahead]

theorem listed_drawn : (drawn labels pairs).listed = (lowerFirst labels.length pairs).map (bondAt labels) := by
  have none : ∀ w, w ∈ ([] : List Nat) ↔ w < 0 := fun w => iff_of_false List.not_mem_nil (Nat.not_lt_zero w)
  rw [listed, List.range_eq_range', bondsAt_range' _ none, ← List.range_eq_range', size_drawn, lowerFirst,
    List.map_flatMap]
  refine List.flatMap_congr fun v _ => ?_
  rw [neighbors_drawn, List.filter_map, List.map_map, List.map_map, node_drawn]
  rfl

/-- New labels for the nodes leave the pairs as they are listed. -/
theorem relabel_drawn (images : AreNodes (labels.map f)) (simple : (Layout.mk labels.length pairs).Simple) :
    (drawn labels pairs).relabel f = .ok (drawn (labels.map f) (lowerFirst labels.length pairs)) := by
  have ordered := simple.ordered_lowerFirst
  have image (k : Nat) (inside : k < labels.length) : f (labels.getD k .null) = (labels.map f).getD k .null := by
    rw [List.getD_eq_getElem _ _ inside, List.getD_eq_getElem _ _ (by rwa [List.length_map]), List.getElem_map]
  have renamed : ((lowerFirst labels.length pairs).map (bondAt labels)).map
      (fun bond => (f bond.labels.1, f bond.labels.2)) =
        (lowerFirst labels.length pairs).map (labelsAt (labels.map f)) := by
    rw [List.map_map]
    refine List.map_congr_left fun pair member => ?_
    obtain ⟨first, second⟩ := ordered.simple.inside pair member
    exact Prod.ext (image _ first) (image _ second)
  have listed := addPairs_drawn images [] (lowerFirst labels.length pairs)
    (by rw [List.length_map]; exact ordered.simple)
  rw [relabel, listed_drawn, renamed]
  change addNodes {} (labels.map f) >>= _ = _
  rw [addNodes_drawn images]
  exact listed

/-! ## Numbers for labels -/

theorem numberIn_getD (usable : AreNodes labels) (inside : v < labels.length) :
    numberIn labels (labels.getD v .null) = .int v := by
  have found : (drawn labels []).indexOf? (labels.getD v .null) = some v := indexOf?_drawn usable inside
  rw [indexOf?, drawn, List.findIdx?_toArray] at found
  rw [numberIn, found]

/-- Labels that are in order are numbered by their places. -/
theorem numbered_drawn (usable : AreNodes labels) (simple : (Layout.mk labels.length pairs).Simple)
    (sorted : labels.Pairwise fun a b => cellPrecedes a b = true) :
    (drawn labels pairs).numbered = .ok (drawn (Value.numbers labels.length) (lowerFirst labels.length pairs)) := by
  have images : labels.map (numberIn labels) = Value.numbers labels.length := by
    refine List.ext_getElem (by rw [List.length_map, Value.length_numbers]) fun v inside _ => ?_
    rw [List.length_map] at inside
    have place := numberIn_getD usable inside
    rw [List.getD_eq_getElem labels .null inside] at place
    rw [List.getElem_map, place]
    exact (Option.some.inj ((List.getElem?_eq_getElem _).symm.trans (Value.getElem?_numbers inside))).symm
  rw [numbered, drawn, List.mergeSort_of_pairwise sorted, ← images]
  exact relabel_drawn (images ▸ areNodes_numbers labels.length) simple

theorem layoutOf_drawn : Generated.layoutOf (drawn labels pairs) = ⟨labels.length, lowerFirst labels.length pairs⟩ := by
  have ends : ((lowerFirst labels.length pairs).map (bondAt labels)).map (·.ends) = lowerFirst labels.length pairs := by
    rw [List.map_map]
    exact List.map_id _
  rw [Generated.layoutOf, size_drawn, listed_drawn, ends]

end Skeleton

end SteinerTrees
