import SteinerTrees.Proofs.Store.History

/-! # Consistent stores

A store keeps the same facts in several places. It is consistent if no two places contradict each other: whichever
way a vertex is asked for, the same one is found; what a vertex has for neighbours is what the list of links says,
in its order; and a link is found from either end. After every history the store is consistent, and
what it holds stays where it is.

A vertex object stands for the vertex with its label wherever a vertex is asked for. The lookup by label is the
exception: an object is not the key of a vertex, and nothing is found. -/

namespace SteinerTrees.Store

variable {g : Graph} {s : Store} {calls more : List Call} {ref a b : Ref} {u v : Nat}

/-- A vertex is found, by every lookup the same one. -/
structure Finds (s : Store) (ref : Ref) (v : Nat) : Prop where
  resolve : s.resolve ref = .ok v
  indexOf : s.indexOf ref = .ok v
  contains : s.contains ref = .ok true
  get? : s.get? (.label ref.named) = .ok (some v)

/-- No lookup finds a vertex. -/
structure Misses (s : Store) (ref : Ref) : Prop where
  resolve : s.resolve ref = .error (Failure.vertexNotFound ref.named).written
  indexOf : s.indexOf ref = .error (Failure.vertexNotFound ref.named).written
  contains : s.contains ref = .ok false
  get? : s.get? (.label ref.named) = .ok none

structure Consistent (s : Store) : Prop where
  /-- Equal labels are those of one vertex. -/
  distinct : ∀ u < s.size, ∀ v < s.size, (s.vertexAt u).label.equal (s.vertexAt v).label = true → u = v
  /-- A vertex has the index of its place. -/
  places : ∀ v < s.size, s.indexOf (.object (s.vertexAt v).label) = .ok v
  /-- All lookups agree. -/
  lookups : ∀ ref : Ref, ref.named.isHashable = true →
    (∃ v < s.size, (s.vertexAt v).label.equal ref.named = true ∧ s.Finds ref v) ∨
    (∀ v < s.size, (s.vertexAt v).label.equal ref.named = false) ∧ s.Misses ref
  /-- What cannot be a label is refused by all lookups alike. -/
  refused : ∀ ref : Ref, ref.named.isHashable = false →
    ∃ failure, s.resolve ref = .error failure ∧ s.indexOf ref = .error failure ∧ s.contains ref = .error failure ∧
      s.get? (.label ref.named) = .error failure
  /-- A vertex object is not the key of a vertex. -/
  objects : ∀ label : Value, label.isHashable = true → s.get? (.object label) = .ok none
  /-- A link joins two different vertices. -/
  ends : ∀ link ∈ s.links.toList, link.source < s.size ∧ link.target < s.size ∧ link.source ≠ link.target
  /-- No two links join the same two vertices. -/
  pairs : (s.links.toList.map Link.pair).Nodup
  /-- The neighbours of a vertex are the other ends of its links, in the order of the links. -/
  neighbors : ∀ ref v, s.resolve ref = .ok v → s.neighbors ref = .ok (s.links.toList.filterMap (·.other? v))
  /-- The link between two vertices is the only one that joins them, seen from either. -/
  edgeBetween : ∀ a b u v, s.resolve a = .ok u → s.resolve b = .ok v →
    ∃ found, s.edgeBetween a b = .ok found ∧ s.edgeBetween b a = .ok found ∧
      ∀ link, found = some link ↔ link ∈ s.links.toList ∧ link.pair = s(u, v)

/-! ## Lookups of an indexed graph -/

theorem resolve_ofGraph (valid : g.WellFormed) (ref : Ref) : (ofGraph g).resolve ref = g.resolve ref.named := by
  rw [resolve, Graph.resolve]
  cases ref.named.asLabel with
  | error failure => rfl
  | ok label =>
    have found : (ofGraph g).byLabel.lookup? label = g.indexOf? label := Graph.lookup?_labelled valid
    simp only [bind, Except.bind]
    generalize g.indexOf? label = result at found ⊢
    subst found
    cases (ofGraph g).byLabel.lookup? label <;> rfl

theorem indexOf_ofGraph (valid : g.WellFormed) (ref : Ref) : (ofGraph g).indexOf ref = g.resolve ref.named :=
  resolve_ofGraph valid ref

theorem contains_ofGraph (valid : g.WellFormed) (ref : Ref) : (ofGraph g).contains ref = g.contains ref.named := by
  rw [contains, Graph.contains]
  cases ref.named.asLabel with
  | error failure => rfl
  | ok label => exact congrArg (fun found : Option Nat => Except.ok found.isSome) (Graph.lookup?_labelled valid)

/-- The lookups of an indexed graph find a vertex where the graph has its label. -/
theorem finds_ofGraph (valid : g.WellFormed) (hashable : ref.named.isHashable = true)
    (found : g.indexOf? ref.named = some v) : (ofGraph g).Finds ref v := by
  have read := Value.asLabel_of_isHashable hashable
  have resolved : g.resolve ref.named = .ok v := Graph.resolve_of_indexOf? hashable found
  refine ⟨(resolve_ofGraph valid ref).trans resolved, (indexOf_ofGraph valid ref).trans resolved, ?_, ?_⟩
  · rw [contains_ofGraph valid, Graph.contains, read]
    exact congrArg (fun found : Option Nat => Except.ok found.isSome) found
  · rw [get?_ofGraph valid, read]
    exact congrArg Except.ok found

theorem misses_ofGraph (valid : g.WellFormed) (hashable : ref.named.isHashable = true)
    (absent : g.indexOf? ref.named = none) : (ofGraph g).Misses ref := by
  have read := Value.asLabel_of_isHashable hashable
  have resolved : g.resolve ref.named = .error (Failure.vertexNotFound ref.named).written :=
    Graph.resolve_of_absent hashable absent
  refine ⟨(resolve_ofGraph valid ref).trans resolved, (indexOf_ofGraph valid ref).trans resolved, ?_, ?_⟩
  · rw [contains_ofGraph valid, Graph.contains, read]
    exact congrArg (fun found : Option Nat => Except.ok found.isSome) absent
  · rw [get?_ofGraph valid, read]
    exact congrArg Except.ok absent

theorem lt_size_of_resolve (valid : g.WellFormed) (found : (ofGraph g).resolve ref = .ok v) : v < g.size := by
  rw [resolve_ofGraph valid, Graph.resolve, bind_eq_ok_iff] at found
  obtain ⟨label, -, found⟩ := found
  cases here : g.indexOf? label with
  | none =>
    rw [here] at found
    cases found
  | some w =>
    rw [here] at found
    cases found
    exact (Graph.indexOf?_spec here).1

theorem neighbors_ofGraph (valid : g.WellFormed) (found : (ofGraph g).resolve ref = .ok v) :
    (ofGraph g).neighbors ref = .ok (g.neighbors v) := by
  have inside := lt_size_of_resolve valid found
  rw [neighbors, found]
  refine congrArg Except.ok ?_
  rw [vertexAt_ofGraph inside, Graph.adjacencyOf, List.map_filterMap, Graph.neighbors]
  refine List.filterMap_congr fun link _ => ?_
  cases link.other? v <;> rfl

theorem edgeBetween_ofGraph (valid : g.WellFormed) (first : (ofGraph g).resolve a = .ok u)
    (second : (ofGraph g).resolve b = .ok v) : (ofGraph g).edgeBetween a b = .ok (g.linkBetween? u v) := by
  rw [edgeBetween, first, second]
  exact congrArg Except.ok
    (linkTo?_ofGraph valid (lt_size_of_resolve valid first) (lt_size_of_resolve valid second))

end SteinerTrees.Store

namespace SteinerTrees.Graph

variable {g : Graph} {link : Link} {u v : Nat}

/-- The link between two vertices is the one that joins them. -/
theorem WellFormed.linkBetween?_eq_some_iff (valid : g.WellFormed) :
    g.linkBetween? u v = some link ↔ link ∈ g.links.toList ∧ link.pair = s(u, v) := by
  constructor
  · intro found
    rw [linkBetween?] at found
    have joins := Array.find?_some found
    exact ⟨Array.mem_toList_iff.mpr (Array.mem_of_find?_eq_some found), Link.joins_iff.mp joins⟩
  · rintro ⟨member, same⟩
    obtain ⟨other, listed, found, joined⟩ := linkBetween?_of_mem (mem_edgeSet_iff.mpr ⟨link, member, same⟩)
    rw [found, List.inj_on_of_nodup_map valid.pairs listed member (joined.trans same.symm)]

theorem WellFormed.linkBetween?_comm (valid : g.WellFormed) : g.linkBetween? u v = g.linkBetween? v u := by
  refine Option.ext fun link => ?_
  rw [valid.linkBetween?_eq_some_iff, valid.linkBetween?_eq_some_iff, Sym2.eq_swap]

end SteinerTrees.Graph

namespace SteinerTrees.Store

variable {g : Graph} {calls more : List Call}

/-- The store of a tidy graph is consistent. -/
theorem consistent_ofGraph (tidy : g.Tidy) : (ofGraph g).Consistent := by
  have valid := tidy.built.wellFormed
  have labelled : ∀ v < g.size, ((ofGraph g).vertexAt v).label = g.label v := fun v inside => by
    rw [vertexAt_ofGraph inside]
  constructor
  case distinct =>
    intro u first v second same
    rw [size_ofGraph] at first second
    rw [labelled u first, labelled v second, Value.equal_iff (tidy.proper_label first).2] at same
    exact valid.eq_of_key_eq first second same
  case places =>
    intro v inside
    rw [size_ofGraph] at inside
    have found : (ofGraph g).Finds (.object (g.label v)) v :=
      finds_ofGraph valid (tidy.proper_label inside).1 (valid.indexOf?_label inside)
    rw [labelled v inside]
    exact found.indexOf
  case lookups =>
    intro ref hashable
    cases found : g.indexOf? ref.named with
    | some v =>
      obtain ⟨inside, same⟩ := Graph.indexOf?_spec found
      refine .inl ⟨v, size_ofGraph.symm ▸ inside, ?_, finds_ofGraph valid hashable found⟩
      rw [labelled v inside, Value.equal_iff (tidy.proper_label inside).2]
      exact same
    | none =>
      refine .inr ⟨?_, misses_ofGraph valid hashable found⟩
      intro v inside
      rw [size_ofGraph] at inside
      rw [labelled v inside, ← Bool.not_eq_true, Value.equal_iff (tidy.proper_label inside).2]
      exact Graph.indexOf?_eq_none_iff.mp found v inside
  case refused =>
    intro ref unusable
    cases read : ref.named.asLabel with
    | ok same => exact absurd (Value.asLabel_eq_ok_iff.mp read).1 (by rw [unusable]; exact Bool.false_ne_true)
    | error failure =>
      refine ⟨failure, ?_, ?_, ?_, ?_⟩
      · rw [resolve, read]; rfl
      · rw [indexOf, read]; rfl
      · rw [contains, read]; rfl
      · rw [get?, read]; rfl
  case objects =>
    intro label hashable
    rw [get?, Value.asLabel_of_isHashable hashable]
    rfl
  case ends =>
    intro link member
    rw [size_ofGraph]
    exact ⟨(valid.ends link member).1, (valid.ends link member).2, tidy.loopless link member⟩
  case pairs => exact valid.pairs
  case neighbors => exact fun ref v found => neighbors_ofGraph valid found
  case edgeBetween =>
    intro a b u v first second
    refine ⟨g.linkBetween? u v, edgeBetween_ofGraph valid first second, ?_,
      fun link => valid.linkBetween?_eq_some_iff⟩
    rw [edgeBetween_ofGraph valid second first, valid.linkBetween?_comm]

/-- After every history of labels that equal themselves a store is consistent, and whatever is called next only
appends to its vertices and its links. -/
theorem consistent_after (reflexive : ∀ call ∈ calls, call.Reflexive) :
    (after calls).Consistent ∧ ∀ more : List Call, (∀ call ∈ more, call.Reflexive) →
      (after calls).graph.labels.toList <+: (after (calls ++ more)).graph.labels.toList ∧
      (after calls).links.toList <+: (after (calls ++ more)).links.toList := by
  have tidy := Graph.tidy_after reflexive
  rw [after_eq]
  refine ⟨consistent_ofGraph tidy, fun more proper => ?_⟩
  rw [after_eq, graph_ofGraph, graph_ofGraph, Graph.after, Graph.after, List.foldl_append]
  exact (tidy.foldl proper).2

/-- A history with equal labels of different types, and four calls that fail. -/
def mixedCalls : List Call :=
  [.vertex (.int 1), .edge (.bool true) (.text "b") .null, .vertex (.bool true),
    .edge (.text "b") (.int 1) (.text "again"), .edge (.text "c") (.text "c") .null,
    .edge (.list []) (.text "d") .null, .edge (.text "c") (.text "b") (.text "cb")]

theorem reflexive_mixedCalls : ∀ call ∈ mixedCalls, call.Reflexive := by
  simp only [mixedCalls, Call.Reflexive, Call.labels, Value.Reflexive]
  decide

theorem consistent_after_mixedCalls : (∀ call ∈ mixedCalls, call.Reflexive) ∧
    (after mixedCalls).graph.labels.toList.map Value.shown = ["1", "'b'", "'c'"] ∧ (after mixedCalls).links.size = 2 ∧
    (after mixedCalls).Consistent ∧ ∀ more : List Call, (∀ call ∈ more, call.Reflexive) →
      (after mixedCalls).graph.labels.toList <+: (after (mixedCalls ++ more)).graph.labels.toList ∧
      (after mixedCalls).links.toList <+: (after (mixedCalls ++ more)).links.toList :=
  ⟨reflexive_mixedCalls, by decide +kernel, by decide +kernel, consistent_after reflexive_mixedCalls⟩

/-- A stored vertex is found by an object with its label, except by the lookup of labels. -/
theorem get?_object_of_stored :
    (after [.vertex (.text "A")]).resolve (.object (.text "A")) = .ok 0 ∧
    (after [.vertex (.text "A")]).indexOf (.object (.text "A")) = .ok 0 ∧
    (after [.vertex (.text "A")]).contains (.object (.text "A")) = .ok true ∧
    (after [.vertex (.text "A")]).get? (.object (.text "A")) = .ok none := by
  refine ⟨?_, ?_, ?_, ?_⟩ <;> rfl

end SteinerTrees.Store
