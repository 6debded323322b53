import SteinerTrees.Proofs.Graph.Adding
import SteinerTrees.Proofs.Store.Indexed

/-! # Stores after any calls

A history is a list of calls that add a vertex or an edge, and may fail. Whatever the history, the store that it leaves
behind is the store of the graph that it leaves behind. If all labels equal themselves, that graph is tidy, and
later calls only append to it. -/

namespace SteinerTrees

/-- A call that adds to a store or to its graph. -/
inductive Call where
  | vertex (label : Value)
  | edge (source destination name : Value)

namespace Call

/-- The labels that a call names. -/
def labels : Call → List Value
  | vertex label => [label]
  | edge source destination _ => [source, destination]

/-- All labels that a call names equal themselves. -/
def Reflexive (call : Call) : Prop := ∀ label ∈ call.labels, label.Reflexive

end Call

/-! ## Histories of graphs -/

namespace Graph

variable {g : Graph} {call : Call} {calls more : List Call}

/-- The graph after a call. One that fails to add a vertex changes nothing. -/
def apply (g : Graph) : Call → Graph
  | .vertex label => (g.addVertex label).toOption.getD g
  | .edge source destination name => (g.addEdge source destination name).1

/-- The graph after a history. -/
def after (calls : List Call) : Graph := calls.foldl apply empty

/-- A graph of labels that equal themselves. -/
structure Tidy (g : Graph) : Prop where
  built : g.Built
  loopless : g.Loopless
  labels : ∀ label ∈ g.labels.toList, label.Reflexive ∧ label.isHashable = true
  names : ∀ link ∈ g.links.toList, link.name ≠ .null

theorem Tidy.empty : empty.Tidy where
  built := .empty
  loopless _ member := absurd member List.not_mem_nil
  labels _ member := absurd member List.not_mem_nil
  names _ member := absurd member List.not_mem_nil

theorem Tidy.proper_label (tidy : g.Tidy) {v : Nat} (inside : v < g.size) :
    (g.label v).isHashable = true ∧ (g.label v).Reflexive := by
  rw [label_eq inside]
  exact (tidy.labels _ (Array.mem_toList_iff.mpr (Array.getElem_mem inside))).symm

theorem Built.apply (built : g.Built) (call : Call) : (g.apply call).Built := by
  cases call with
  | vertex label =>
    rw [Graph.apply]
    cases added : g.addVertex label with
    | error failure => exact built
    | ok result => exact built.addVertex added
  | edge source destination name => exact built.addEdge source destination name

/-- A history builds a graph. -/
theorem Built.foldl (built : g.Built) (calls : List Call) : (calls.foldl Graph.apply g).Built := by
  induction calls generalizing g with
  | nil => exact built
  | cons call rest ih => exact ih (built.apply call)

theorem built_after (calls : List Call) : (after calls).Built := Built.empty.foldl calls

theorem Grown.apply (valid : g.WellFormed) (reflexive : call.Reflexive) : Grown call.labels g (g.apply call) := by
  cases call with
  | vertex label =>
    rw [Graph.apply]
    cases added : g.addVertex label with
    | error failure => exact .refl
    | ok result => exact .addVertex added
  | edge source destination name => exact .addEdge valid (reflexive source List.mem_cons_self) destination name

theorem Loopless.apply (loopless : g.Loopless) (valid : g.WellFormed) (reflexive : call.Reflexive) :
    (g.apply call).Loopless := by
  cases call with
  | vertex label =>
    rw [Graph.apply]
    cases added : g.addVertex label with
    | error failure => exact loopless
    | ok result =>
      rw [Loopless, Except.toOption, Option.getD_some, (valid.addVertex added).2]
      exact loopless
  | edge source destination name =>
    exact loopless.addEdge valid (reflexive source List.mem_cons_self) destination name

theorem Tidy.apply (tidy : g.Tidy) (reflexive : call.Reflexive) : (g.apply call).Tidy := by
  have valid := tidy.built.wellFormed
  have grown := Grown.apply valid reflexive
  refine ⟨tidy.built.apply call, tidy.loopless.apply valid reflexive, ?_, ?_⟩
  · obtain ⟨more, same, known⟩ := grown.labels
    rw [same]
    intro label member
    rcases List.mem_append.mp member with old | new
    · exact tidy.labels label old
    · exact ⟨reflexive label (known label new).1, (known label new).2⟩
  · obtain ⟨more, same, named⟩ := grown.links
    rw [same]
    exact fun link member => (List.mem_append.mp member).elim (tidy.names link) (named link)

/-- A history keeps a graph tidy, and only appends to its labels and links. -/
theorem Tidy.foldl (tidy : g.Tidy) (reflexive : ∀ call ∈ calls, call.Reflexive) :
    (calls.foldl Graph.apply g).Tidy ∧ g.labels.toList <+: (calls.foldl Graph.apply g).labels.toList ∧
      g.links.toList <+: (calls.foldl Graph.apply g).links.toList := by
  induction calls generalizing g with
  | nil => exact ⟨tidy, List.prefix_rfl, List.prefix_rfl⟩
  | cons call rest ih =>
    have first := reflexive call List.mem_cons_self
    have grown := Grown.apply tidy.built.wellFormed first
    obtain ⟨last, labels, links⟩ :=
      ih (tidy.apply first) fun other member => reflexive other (List.mem_cons_of_mem _ member)
    exact ⟨last, grown.labels_prefix.trans labels, grown.links_prefix.trans links⟩

theorem tidy_after (reflexive : ∀ call ∈ calls, call.Reflexive) : (after calls).Tidy :=
  (Tidy.empty.foldl reflexive).1

/-! ### Labels that are kept

A call with a label that differs from itself may fail and leave nothing behind. So it is enough to know the labels that
are there in the end. -/

theorem labels_subset_ensure (g : Graph) (label : Value) : g.labels.toList ⊆ (g.ensure label).1.labels.toList := by
  unfold Graph.ensure
  cases g.indexOf? label with
  | some v => exact List.Subset.refl _
  | none => exact fun other member => by simp [push, Array.mem_toList_iff.mp member]

theorem labels_subset_apply (g : Graph) (call : Call) : g.labels.toList ⊆ (g.apply call).labels.toList := by
  cases call with
  | vertex label =>
    rw [Graph.apply]
    cases added : g.addVertex label with
    | error failure => exact List.Subset.refl _
    | ok result =>
      have grown := Grown.addVertex added
      exact grown.labels_prefix.subset
  | edge source destination name =>
    rw [Graph.apply]
    rcases addEdge_cases g source destination name with
      ⟨failure, same⟩ | ⟨failure, -, -, absent, same⟩ | ⟨-, -, -, -, same⟩
    · rw [same]
      exact List.Subset.refl _
    · rw [same]
      exact fun other member => by simp [push, Array.mem_toList_iff.mp member]
    · rw [same, labels_linkNamed]
      exact List.Subset.trans (labels_subset_ensure g source) (labels_subset_ensure _ destination)

theorem labels_subset_foldl (g : Graph) (calls : List Call) :
    g.labels.toList ⊆ (calls.foldl Graph.apply g).labels.toList := by
  induction calls generalizing g with
  | nil => exact List.Subset.refl _
  | cons call rest ih => exact List.Subset.trans (labels_subset_apply g call) (ih _)

/-- A label of which the vertex equals itself does so too. -/
theorem reflexive_of_indexOf? {a : Value} (labels : ∀ label ∈ g.labels.toList, label.Reflexive) {v : Nat}
    (found : g.indexOf? a = some v) : a.Reflexive := by
  obtain ⟨inside, same⟩ := indexOf?_spec found
  rw [label_eq inside] at same
  exact (labels _ (Array.mem_toList_iff.mpr (Array.getElem_mem inside))).of_key_eq same.symm

/-- A call that leaves only labels that equal themselves names only such labels, or changes nothing. -/
theorem reflexive_of_apply (valid : g.WellFormed) (labels : ∀ label ∈ (g.apply call).labels.toList, label.Reflexive) :
    call.Reflexive ∨ g.apply call = g := by
  cases call with
  | vertex label =>
    rw [Graph.apply] at labels ⊢
    cases added : g.addVertex label with
    | error failure => exact .inr rfl
    | ok result =>
      rw [added] at labels
      refine .inl (List.forall_mem_singleton.mpr (labels label ?_))
      obtain ⟨same, read, added⟩ := bind_eq_ok_iff.mp added
      obtain ⟨-, rfl⟩ := Value.asLabel_eq_ok_iff.mp read
      split at added
      · cases added
      · cases added
        exact Array.mem_toList_iff.mpr Array.mem_push_self
  | edge source destination name =>
    rw [Graph.apply] at labels ⊢
    rcases addEdge_cases g source destination name with
      ⟨failure, same⟩ | ⟨failure, -, keys, absent, same⟩ | ⟨-, unlinked, -, -, same⟩
    · exact .inr (by rw [same])
    · rw [same] at labels
      have reflexive : source.Reflexive := labels source (by simp [push])
      exact .inl (List.forall_mem_cons.mpr ⟨reflexive, List.forall_mem_singleton.mpr (reflexive.of_key_eq keys.symm)⟩)
    · rw [same, labels_linkNamed] at labels
      have first := valid.ensure source
      have second := first.valid.ensure destination
      have start := reflexive_of_indexOf? labels (first.unlinked second valid unlinked).1
      have stop := reflexive_of_indexOf? labels second.found
      exact .inl (List.forall_mem_cons.mpr ⟨start, List.forall_mem_singleton.mpr stop⟩)

theorem Tidy.foldl_of_labels (tidy : g.Tidy)
    (labels : ∀ label ∈ (calls.foldl Graph.apply g).labels.toList, label.Reflexive) :
    (calls.foldl Graph.apply g).Tidy := by
  induction calls generalizing g with
  | nil => exact tidy
  | cons call rest ih =>
    have kept := fun label member => labels label (labels_subset_foldl (g.apply call) rest member)
    refine ih ?_ labels
    rcases reflexive_of_apply tidy.built.wellFormed kept with reflexive | unchanged
    · exact tidy.apply reflexive
    · exact unchanged.symm ▸ tidy

/-- A history that leaves only labels that equal themselves leaves a tidy graph. -/
theorem tidy_of_labels (labels : ∀ label ∈ (after calls).labels.toList, label.Reflexive) : (after calls).Tidy :=
  Tidy.empty.foldl_of_labels labels

end Graph

/-! ## Histories of stores -/

namespace Store

variable {g : Graph} {s : Store} {call : Call} {calls more : List Call} {ref : Ref} {u v : Nat}

/-- The store after a call. One that fails to add a vertex changes nothing. -/
def apply (s : Store) : Call → Store
  | .vertex label =>
    match s.addVertex label with
    | .ok (next, _) => next
    | .error _ => s
  | .edge source destination name => (s.addEdge source destination name).1

/-- The store after a history. -/
def after (calls : List Call) : Store := calls.foldl apply empty

theorem apply_ofGraph (valid : g.WellFormed) (call : Call) : (ofGraph g).apply call = ofGraph (g.apply call) := by
  cases call with
  | edge source destination name => exact congrArg Prod.fst (addEdge_ofGraph valid source destination name)
  | vertex label =>
    rw [apply, Graph.apply, Graph.addVertex]
    cases read : label.asLabel with
    | error failure => simp only [addVertex, read, bind, Except.bind]; rfl
    | ok same =>
      obtain ⟨hashable, rfl⟩ := Value.asLabel_eq_ok_iff.mp read
      rw [addVertex_ofGraph valid hashable]
      simp only [bind, Except.bind]
      cases g.indexOf? same <;> rfl

theorem foldl_ofGraph (built : g.Built) (calls : List Call) :
    calls.foldl apply (ofGraph g) = ofGraph (calls.foldl Graph.apply g) := by
  induction calls generalizing g with
  | nil => rfl
  | cons call rest ih =>
    rw [List.foldl_cons, List.foldl_cons, apply_ofGraph built.wellFormed, ih (built.apply call)]

/-- Every store is that of its graph, with all indexes up to date. -/
theorem after_eq (calls : List Call) : after calls = ofGraph (Graph.after calls) := foldl_ofGraph .empty calls

end Store

end SteinerTrees
