import SteinerTrees.Proofs.Store.Steps
import SteinerTrees.Proofs.Store.Consistent
import SteinerTrees.Proofs.Value.Limits

/-! # When adding fails

A call to add a vertex fails exactly if there is one with an equal label, or if the label cannot be a label. A call to
add an edge fails exactly if its labels are equal, if one of them cannot be a label, or if both have vertices and these
are joined. Every other call adds what is missing of the vertices, in the order in which they were named, and the edge.
A call that fails changes nothing, whichever step it fails at. All this holds of labels that can be written. An edge
between others has no default name, and the call that would make one fails after it has added its labels. -/

namespace SteinerTrees.Store

variable {g : Graph} {s : Store} {calls : List Call} {a b label name : Value} {u v : Nat}

/-- There is a vertex with an equal label. -/
def Holds (s : Store) (label : Value) : Prop := ∃ v < s.size, (s.vertexAt v).label.equal label = true

instance : Decidable (s.Holds label) :=
  inferInstanceAs (Decidable (∃ v < s.size, (s.vertexAt v).label.equal label = true))

/-- The labels that have no vertex. -/
def missing (s : Store) (labels : List Value) : List Value := labels.filter fun label => ¬ s.Holds label

/-- Both labels have vertices, and a link leads from one to the other, in either direction. -/
def AreJoined (s : Store) (a b : Value) : Prop :=
  ∃ u < s.size, ∃ v < s.size, (s.vertexAt u).label.equal a = true ∧ (s.vertexAt v).label.equal b = true ∧
    ∃ link ∈ s.links.toList, link.pair = s(u, v)

instance : Decidable (s.AreJoined a b) :=
  inferInstanceAs (Decidable (∃ u < s.size, ∃ v < s.size, (s.vertexAt u).label.equal a = true ∧
    (s.vertexAt v).label.equal b = true ∧ ∃ link ∈ s.links.toList, link.pair = s(u, v)))

/-- The vertex with an equal label is the one that is found under the label. -/
theorem label_equal_iff (valid : g.WellFormed) (reflexive : a.Reflexive) :
    v < (ofGraph g).size ∧ ((ofGraph g).vertexAt v).label.equal a = true ↔ g.indexOf? a = some v := by
  rw [valid.indexOf?_eq_some_iff, size_ofGraph]
  refine and_congr_right fun inside => ?_
  rw [vertexAt_ofGraph inside]
  constructor
  · intro same
    rw [Value.equal, Bool.and_eq_true] at same
    exact Value.same_iff.mp same.1
  · intro same
    rwa [Value.equal_iff (reflexive.of_key_eq same)]

/-- A label has a vertex where it is found among the labels. -/
theorem holds_iff (valid : g.WellFormed) (reflexive : a.Reflexive) :
    (ofGraph g).Holds a ↔ (g.indexOf? a).isSome = true := by
  rw [Option.isSome_iff_exists]
  exact exists_congr fun v => label_equal_iff valid reflexive

/-- Labels are joined where a link is found between them. -/
theorem areJoined_iff (valid : g.WellFormed) (first : a.Reflexive) (second : b.Reflexive) :
    (ofGraph g).AreJoined a b ↔ g.isLinked a b = true := by
  rw [← Bool.not_eq_false, Graph.isLinked_eq_false_iff]
  push Not
  constructor
  · rintro ⟨u, inside, v, bound, start, stop, joined⟩
    exact ⟨u, v, (label_equal_iff valid first).mp ⟨inside, start⟩, (label_equal_iff valid second).mp ⟨bound, stop⟩,
      Graph.mem_edgeSet_iff.mpr joined⟩
  · rintro ⟨u, v, start, stop, joined⟩
    obtain ⟨inside, start⟩ := (label_equal_iff valid first).mpr start
    obtain ⟨bound, stop⟩ := (label_equal_iff valid second).mpr stop
    exact ⟨u, inside, v, bound, start, stop, Graph.mem_edgeSet_iff.mp joined⟩

/-- Adding what is missing of two vertices appends their labels in the order in which they are named. -/
theorem ensure_ensure (valid : g.WellFormed) (first : a.Reflexive) (second : b.Reflexive) (differ : a.key ≠ b.key) :
    ((g.ensure a).1.ensure b).1 = ⟨g.labels ++ (ofGraph g).missing [a, b], g.links⟩ := by
  have kept : (g.ensure a).1.indexOf? b = g.indexOf? b := (valid.ensure a).others b differ.symm
  have start := holds_iff valid first
  have stop := holds_iff valid second
  rw [Graph.ensure, kept]
  unfold Graph.ensure
  cases source : g.indexOf? a <;> cases target : g.indexOf? b <;>
    simp [missing, start, stop, source, target, Graph.push]

/-- Without a name that is given or can be made, the labels of an edge are added all the same, and no link joins
them. -/
theorem addEdge_after_of_unnamed (calls : List Call) (first : a.Reflexive) (second : b.Reflexive)
    (start : a.isHashable = true) (stop : b.isHashable = true) (differ : a.equal b = false)
    (apart : ¬ (after calls).AreJoined a b) (unwritable : (a.isWritable && b.isWritable) = false) :
    (after calls).addEdge a b .null =
      (ofGraph ⟨(after calls).graph.labels ++ (after calls).missing [a, b], (after calls).links⟩,
        .error .unwritable) := by
  have valid := (Graph.built_after calls).wellFormed
  rw [after_eq] at apart ⊢
  generalize Graph.after calls = g at apart valid ⊢
  have keys : a.key ≠ b.key := by
    rw [Ne, ← Value.equal_iff first, differ]
    exact Bool.false_ne_true
  have unlinked : g.isLinked a b = false := Bool.eq_false_iff.mpr (mt (areJoined_iff valid first second).mpr apart)
  have added : g.addEdge a b .null = _ := Graph.addEdge_of_unlinked valid keys start stop unlinked
  have unnamed : Graph.nameOf a b .null = .error .unwritable := by
    rw [Graph.nameOf, Graph.defaultName, unwritable]
    rfl
  rw [unnamed] at added
  rw [addEdge_ofGraph valid, added, graph_ofGraph]
  exact congrArg (fun g => (ofGraph g, _)) (ensure_ensure valid first second keys)

end SteinerTrees.Store
