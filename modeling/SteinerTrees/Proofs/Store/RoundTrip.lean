import SteinerTrees.Proofs.Graph.Listing
import SteinerTrees.Proofs.Store.Consistent

/-! # Instances of stores

A store is written as an instance and built again from it. An instance keeps neither the indexes nor the order of
neighbours. Both come back, as the vertices of an instance are listed in the order of their indexes and the
edges in the order in which they were made. The two halves meet at `Graph.Traces`: a tidy graph is one that was built
from the lists of its own instance, and such a graph is unique. -/

namespace SteinerTrees

namespace Graph

variable {g h : Graph} {problem : Value} {terminals : List Value} {link : Link}

/-- The edge that an instance lists for an edge. -/
def entryOf (e : Edge) : EdgeEntry := ⟨e.source, e.destination, e.name⟩

/-- What an instance of a graph lists. -/
theorem describes_toInstance (g : Graph) (terminals : List Value) :
    (g.toInstance terminals).Describes g.labels.toList (g.edges.map entryOf) where
  nodes := rfl
  edges := by
    have listed : ∀ edges : List Edge,
        (edges.map edgeEntry).mapM EdgeEntry.ofValue = .ok (edges.map entryOf) := by
      intro edges
      induction edges with
      | nil => rfl
      | cons e rest ih =>
        rw [List.map_cons, List.mapM_cons, ih]
        rfl
    exact listed g.edges

namespace Tidy

theorem proper (tidy : g.Tidy) (member : link ∈ g.links.toList) : (entryOf (g.edge link)).Proper := by
  obtain ⟨first, second⟩ := tidy.built.wellFormed.ends link member
  intro label ended
  rcases List.mem_pair.mp ended with rfl | rfl
  · exact tidy.proper_label first
  · exact tidy.proper_label second

/-- Two different links have different ends. -/
theorem simple (tidy : g.Tidy) : EdgeEntry.Simple (g.edges.map entryOf) := by
  have valid := tidy.built.wellFormed
  rw [edges, List.map_map]
  constructor
  · simp only [List.forall_mem_map]
    intro link member loop
    have same := (EdgeEntry.isLoop_iff (tidy.proper member)).mp loop
    have inside := valid.ends link member
    exact tidy.loopless link member (valid.eq_of_key_eq inside.1 inside.2 same)
  · rw [List.pairwise_map]
    -- Equal labels are those of one vertex, so joined ends would be one pair, and pairs are listed once.
    refine (List.pairwise_map.mp valid.pairs).imp_of_mem ?_
    intro link other member listed differ joins
    have here := valid.ends link member
    have there := valid.ends other listed
    refine differ (Sym2.eq_iff.mpr ?_)
    exact ((EdgeEntry.joins_iff (tidy.proper member)).mp joins).imp
      (fun same => ⟨valid.eq_of_key_eq here.1 there.1 same.1, valid.eq_of_key_eq here.2 there.2 same.2⟩)
      (fun same => ⟨valid.eq_of_key_eq here.1 there.2 same.1, valid.eq_of_key_eq here.2 there.1 same.2⟩)

/-- A tidy graph is one that is built from its own labels and edges. -/
theorem traces (tidy : g.Tidy) :
    Traces (g.labels.toList ++ (g.edges.map entryOf).flatMap EdgeEntry.ends) (g.edges.map entryOf) g := by
  have valid := tidy.built.wellFormed
  have listed : ∀ v < g.size, g.label v ∈ g.labels.toList := fun v inside => by
    rw [label_eq inside]
    exact Array.mem_toList_iff.mpr (Array.getElem_mem inside)
  refine ⟨valid, ?_, ?_, ?_, tidy.simple⟩
  · rw [Value.distinct_append_of_mem, Value.distinct_eq_self valid.labels]
    intro label member
    obtain ⟨e, found, ended⟩ := List.mem_flatMap.mp member
    rw [edges, List.map_map] at found
    obtain ⟨link, joined, rfl⟩ := List.mem_map.mp found
    have inside := valid.ends link joined
    refine List.mem_map_of_mem ?_
    rcases List.mem_pair.mp ended with rfl | rfl
    · exact listed _ inside.1
    · exact listed _ inside.2
  · rw [edges, List.map_map, List.forall₂_map_left_iff, List.forall₂_same]
    intro link member
    have inside := valid.ends link member
    exact ⟨valid.indexOf?_label inside.1, valid.indexOf?_label inside.2,
      nameOf_of_ne_null (tidy.names link member)⟩
  · rw [edges, List.map_map, List.forall_mem_map]
    exact fun link member => tidy.proper member

/-- A tidy graph is built again from whatever lists its labels and its edges. -/
theorem ofInstance_of_describes (tidy : g.Tidy)
    (described : problem.Describes g.labels.toList (g.edges.map entryOf)) : ofInstance problem = .ok g :=
  tidy.traces.ofInstance described fun label member => (tidy.labels label member).2

/-- A tidy graph is built again from its instance. -/
theorem ofInstance_toInstance (tidy : g.Tidy) (terminals : List Value) :
    ofInstance (g.toInstance terminals) = .ok g :=
  tidy.ofInstance_of_describes (g.describes_toInstance terminals)

end Tidy

end Graph

namespace Store

variable {g : Graph} {calls : List Call} {labels entries : List Value} {link : Link}

/-! ## Building an indexed store -/

theorem addNodes_ofGraph (valid : g.WellFormed) : (ofGraph g).addNodes labels = (g.addNodes labels).map ofGraph := by
  induction labels generalizing g with
  | nil => rfl
  | cons label rest ih =>
    rw [addNodes, Graph.addNodes, contains_ofGraph valid, Ref.named, Graph.contains]
    cases read : label.asLabel with
    | error failure => rfl
    | ok same =>
      obtain ⟨hashable, rfl⟩ := Value.asLabel_eq_ok_iff.mp read
      have added := addVertex_ofGraph valid hashable
      simp only [bind, Except.bind]
      cases found : g.indexOf? same with
      | some v => exact ih valid
      | none =>
        rw [found] at added
        rw [added]
        exact ih (valid.push found)

theorem addEdges_ofGraph (valid : g.WellFormed) : (ofGraph g).addEdges entries = (g.addEdges entries).map ofGraph := by
  induction entries generalizing g with
  | nil => rfl
  | cons entry rest ih =>
    rw [addEdges, Graph.addEdges]
    cases entry.field "source" with
    | error failure => rfl
    | ok source =>
      cases entry.field "target" with
      | error failure => rfl
      | ok target =>
        cases entry.get "name" .null with
        | error failure => rfl
        | ok name =>
          simp only [bind, Except.bind, addEdge_ofGraph valid]
          have next := valid.addEdge source target name
          generalize g.addEdge source target name = added at next ⊢
          obtain ⟨h, failure | edge⟩ := added
          · rfl
          · exact ih next

/-- The store of an instance is that of its graph. -/
theorem ofInstance_eq (problem : Value) : ofInstance problem = (Graph.ofInstance problem).map ofGraph := by
  rw [ofInstance, Graph.ofInstance]
  cases problem.get "nodes" (.list []) with
  | error failure => rfl
  | ok nodes =>
    simp only [bind, Except.bind]
    cases nodes.items with
    | error failure => rfl
    | ok labels =>
      have added : empty.addNodes labels = (Graph.empty.addNodes labels).map ofGraph := addNodes_ofGraph .empty
      simp only [added]
      cases started : Graph.empty.addNodes labels with
      | error failure => rfl
      | ok g =>
        have valid := Graph.WellFormed.empty.addNodes started
        simp only [Except.map]
        cases problem.get "edges" (.list []) with
        | error failure => rfl
        | ok edges =>
          cases listed : edges.items with
          | error failure => simp only [listed]
          | ok entries =>
            simp only [listed]
            exact addEdges_ofGraph valid

theorem toInstance_ofGraph (valid : g.WellFormed) (terminals : List Value) :
    (ofGraph g).toInstance terminals = g.toInstance terminals := by
  have labels : (ofGraph g).vertices.toList.map (·.label) = g.labels.toList := by
    rw [← Array.toList_map]
    exact congrArg (·.labels.toList) graph_ofGraph
  have edges : (ofGraph g).links.toList.map (fun link => Graph.edgeEntry ((ofGraph g).edge link)) =
      g.edges.map Graph.edgeEntry := by
    rw [Graph.edges, List.map_map]
    refine List.map_congr_left fun link member => ?_
    obtain ⟨first, second⟩ := valid.ends link member
    exact congrArg Graph.edgeEntry (edge_ofGraph first second)
  rw [toInstance, Graph.toInstance, labels, edges, size_ofGraph]

/-! ## There and back -/

/-- The store of a history is built again from its instance, with every index and in every order, and is written as the
same instance. So both give the same answer to every query. -/
theorem ofInstance_toInstance_after (reflexive : ∀ call ∈ calls, call.Reflexive) (terminals : List Value) :
    ∃ copy listed, ofInstance ((after calls).toInstance terminals) = .ok copy ∧
      ((after calls).toInstance terminals).field "terminals" >>= Value.items = .ok listed ∧
      copy = after calls ∧ listed = terminals ∧ copy.toInstance listed = (after calls).toInstance terminals ∧
      (∀ source, copy.distances source = (after calls).distances source) ∧
      (∀ source target, copy.path source target = (after calls).path source target) ∧
      ∀ settings queried, copy.solve settings queried = (after calls).solve settings queried := by
  have tidy := Graph.tidy_after reflexive
  have again : ofInstance ((after calls).toInstance terminals) = .ok (after calls) := by
    rw [after_eq, toInstance_ofGraph tidy.built.wellFormed, ofInstance_eq, tidy.ofInstance_toInstance]
    rfl
  exact ⟨after calls, terminals, again, rfl, rfl, rfl, rfl, fun _ => rfl, fun _ _ => rfl, fun _ _ => rfl⟩

/-- The history with equal labels of different types, written with two terminals of which one is no vertex. -/
theorem ofInstance_toInstance_mixedCalls : (∀ call ∈ mixedCalls, call.Reflexive) ∧
    (after mixedCalls).links.toList.map (·.name.shown) = ["'True-b'", "'cb'"] ∧
    ∃ copy listed, ofInstance ((after mixedCalls).toInstance [.int 1, .text "z"]) = .ok copy ∧
      ((after mixedCalls).toInstance [.int 1, .text "z"]).field "terminals" >>= Value.items = .ok listed ∧
      copy = after mixedCalls ∧ listed = [.int 1, .text "z"] ∧
      copy.toInstance listed = (after mixedCalls).toInstance [.int 1, .text "z"] ∧
      (∀ source, copy.distances source = (after mixedCalls).distances source) ∧
      (∀ source target, copy.path source target = (after mixedCalls).path source target) ∧
      ∀ settings queried, copy.solve settings queried = (after mixedCalls).solve settings queried :=
  ⟨reflexive_mixedCalls, by decide +kernel, ofInstance_toInstance_after reflexive_mixedCalls [.int 1, .text "z"]⟩

end Store

end SteinerTrees
