import Mathlib.Data.List.Perm.Subperm
import SteinerTrees.Generator.Layout
import SteinerTrees.Proofs.Graph.Joined

/-! # What sources draw

The edges of a layout join distinct nodes below its size, and no two join the same pair. That is easy to see of a
layout that names the lower end of each edge first and repeats no edge, as both random kinds do. A source is lawful if
its layouts are of this form and its samples are members at distinct places. The source that throws dice is, whatever is
thrown. -/

namespace SteinerTrees

variable {dice : Dice} {layout : Layout} {edges : List (Nat × Nat)} {size links source count throw u v : Nat}
  {members ends : List Nat}

namespace Layout

/-- The pairs that edges join, without order. -/
def joinedPairs (edges : List (Nat × Nat)) : List (Sym2 Nat) := edges.map fun edge => s(edge.1, edge.2)

/-- Edges without loops and repeated pairs on the numbers below the size. -/
structure Simple (layout : Layout) : Prop where
  inside : ∀ edge ∈ layout.edges, edge.1 < layout.size ∧ edge.2 < layout.size
  loopless : ∀ edge ∈ layout.edges, edge.1 ≠ edge.2
  pairs : (joinedPairs layout.edges).Nodup

/-- Edges on the numbers below a bound, each once, with the lower end first. -/
structure Ordered (bound : Nat) (edges : List (Nat × Nat)) : Prop where
  ascending : ∀ edge ∈ edges, edge.1 < edge.2 ∧ edge.2 < bound
  once : edges.Nodup

theorem Ordered.simple (ordered : Ordered size edges) : (Layout.mk size edges).Simple where
  inside edge member := by
    have ends := ordered.ascending edge member
    exact ⟨ends.1.trans ends.2, ends.2⟩
  loopless edge member := (ordered.ascending edge member).1.ne
  pairs := by
    refine List.Nodup.map_on (fun e first f second same => ?_) ordered.once
    have lower := (ordered.ascending e first).1
    have other := (ordered.ascending f second).1
    rcases Sym2.eq_iff.mp same with ⟨starts, stops⟩ | ⟨starts, stops⟩
    · exact Prod.ext starts stops
    · omega

theorem Ordered.sublist {kept : List (Nat × Nat)} (ordered : Ordered size edges) (sublist : kept.Sublist edges) :
    Ordered size kept :=
  ⟨fun edge member => ordered.ascending edge (sublist.subset member), ordered.once.sublist sublist⟩

theorem Ordered.perm {others : List (Nat × Nat)} (ordered : Ordered size edges) (perm : others.Perm edges) :
    Ordered size others :=
  ⟨fun edge member => ordered.ascending edge (perm.mem_iff.mp member), perm.nodup_iff.mpr ordered.once⟩

/-- Edges that are listed for one lower end after the other. -/
theorem ordered_flatMap {edgesAt : Nat → List (Nat × Nat)} (each : ∀ u < size, Ordered size (edgesAt u))
    (lower : ∀ u < size, ∀ edge ∈ edgesAt u, edge.1 = u) : Ordered size ((List.range size).flatMap edgesAt) where
  ascending edge member := by
    obtain ⟨u, inside, listed⟩ := List.mem_flatMap.mp member
    exact (each u (List.mem_range.mp inside)).ascending edge listed
  once := by
    refine List.nodup_flatMap.mpr ⟨fun u inside => (each u (List.mem_range.mp inside)).once, ?_⟩
    refine List.nodup_range.imp_of_mem fun {u v} first second differ => ?_
    rintro edge here there
    exact differ ((lower u (List.mem_range.mp first) edge here).symm.trans
      (lower v (List.mem_range.mp second) edge there))

/-- Layouts without loops and repeated pairs have their edges in either direction. -/
theorem Simple.swap (simple : (Layout.mk size edges).Simple) : (Layout.mk size (edges.map Prod.swap)).Simple where
  inside := List.forall_mem_map.mpr fun edge member => (simple.inside edge member).symm
  loopless := List.forall_mem_map.mpr fun edge member => (simple.loopless edge member).symm
  pairs := by
    have same : joinedPairs (edges.map Prod.swap) = joinedPairs edges := by
      rw [joinedPairs, List.map_map]
      exact List.map_congr_left fun edge _ => Sym2.eq_swap
    exact same ▸ simple.pairs

/-! ## Random graphs -/

theorem ordered_pairs (size : Nat) : Ordered size (pairs size) := by
  refine ordered_flatMap (fun u inside => ⟨?_, ?_⟩) fun u _ => List.forall_mem_map.mpr fun v _ => rfl
  · refine List.forall_mem_map.mpr fun v member => ?_
    have bounds := List.mem_range'_1.mp member
    omega
  · exact (List.nodup_range' ..).map fun v w same => (Prod.mk.inj same).2

theorem simple_random (dice : Dice) (chance : Chance) (size : Nat) : (random dice chance size).Simple := by
  refine ((ordered_pairs size).sublist ?_).simple
  have kept : ((pairs size).zipIdx.filter fun entry => chance.holds (dice entry.2)).Sublist (pairs size).zipIdx :=
    List.filter_sublist
  have listed := kept.map (·.1)
  rwa [List.zipIdx_map_fst] at listed

/-! ## Growing graphs -/

theorem drawDistinct_spec (dice : Dice) (count throw : Nat) (ends : List Nat) :
    (drawDistinct dice count throw ends).Nodup ∧ ∀ v ∈ drawDistinct dice count throw ends, v ∈ ends := by
  induction count generalizing throw ends with
  | zero => exact ⟨List.nodup_nil, fun _ member => absurd member List.not_mem_nil⟩
  | succ count ih =>
    unfold drawDistinct
    split
    next v drawn =>
      obtain ⟨distinct, known⟩ := ih (throw + 1) (ends.filter (· ≠ v))
      refine ⟨List.nodup_cons.mpr ⟨fun again => ?_, distinct⟩, List.forall_mem_cons.mpr ⟨?_, fun w member => ?_⟩⟩
      · simpa using (List.mem_filter.mp (known v again)).2
      · exact List.mem_of_getElem? drawn
      · exact List.mem_of_mem_filter (known w member)
    next => exact ⟨List.nodup_nil, fun _ member => absurd member List.not_mem_nil⟩

/-- A node is attached to distinct earlier ones. -/
theorem Ordered.attach (ordered : Ordered source edges) (dice : Dice) (links : Nat) :
    Ordered (source + 1) (attach dice links edges source) := by
  obtain ⟨distinct, known⟩ := drawDistinct_spec dice links (source * links) (edges.flatMap fun edge => [edge.1, edge.2])
  have earlier : ∀ target ∈ edges.flatMap fun edge => [edge.1, edge.2], target < source := by
    intro target member
    obtain ⟨edge, listed, ended⟩ := List.mem_flatMap.mp member
    have bounds := ordered.ascending edge listed
    rcases List.mem_pair.mp ended with rfl | rfl <;> omega
  unfold Layout.attach
  constructor
  · intro edge member
    rcases List.mem_append.mp member with old | new
    · have bounds := ordered.ascending edge old
      omega
    · obtain ⟨target, drawn, rfl⟩ := List.mem_map.mp new
      exact ⟨earlier target (known target drawn), Nat.lt_succ_self source⟩
  · refine List.Nodup.append ordered.once (distinct.map fun v w same => (Prod.mk.inj same).1) ?_
    intro edge old new
    obtain ⟨target, -, rfl⟩ := List.mem_map.mp new
    exact (ordered.ascending _ old).2.false

theorem Ordered.foldl_attach (ordered : Ordered source edges) (dice : Dice) (links count : Nat) :
    Ordered (source + count) ((List.range' source count).foldl (Layout.attach dice links) edges) := by
  induction count generalizing source edges with
  | zero => exact ordered
  | succ count ih =>
    have rest := ih (ordered.attach dice links)
    rwa [Nat.add_assoc, Nat.add_comm 1] at rest

theorem ordered_star (links : Nat) : Ordered (links + 1) ((List.range' 1 links).map fun v => (0, v)) where
  ascending := by
    refine List.forall_mem_map.mpr fun v member => ?_
    have bounds := List.mem_range'_1.mp member
    omega
  once := (List.nodup_range' ..).map fun v w same => (Prod.mk.inj same).2

theorem simple_preferential (dice : Dice) (fits : links < size) : (preferential dice links size).Simple := by
  have grown := (ordered_star links).foldl_attach dice links (size - links - 1)
  rw [show links + 1 + (size - links - 1) = size by omega] at grown
  exact (grown.perm (List.mergeSort_perm _ _)).simple

end Layout

/-! ## Sources -/

/-- A sample is of members at distinct places, as many as are asked for. -/
theorem Dice.sample_spec {α : Type} (dice : Dice) {count : Nat} (members : List α) (enough : count ≤ members.length)
    (throw : Nat) : (dice.sample count throw members).length = count ∧
      (dice.sample count throw members).Subperm members := by
  induction count generalizing throw members with
  | zero => exact ⟨rfl, List.nil_subperm⟩
  | succ count ih =>
    have inside : dice throw % members.length < members.length := Nat.mod_lt _ (by omega)
    unfold Dice.sample
    simp only [List.getElem?_eq_getElem inside]
    have fewer : (members.eraseIdx (dice throw % members.length)).length = members.length - 1 :=
      List.length_eraseIdx_of_lt inside
    obtain ⟨size, within⟩ := ih (members.eraseIdx (dice throw % members.length)) (by omega) (throw + 1)
    refine ⟨by simp [size], ?_⟩
    exact (List.subperm_cons _ |>.mpr within).trans (List.getElem_cons_eraseIdx_perm inside).subperm

/-- What is relied on of a source: graphs without loops and repeated pairs on the numbers below their size, and samples
of members at distinct places. -/
structure Source.Lawful (source : Source) : Prop where
  random (chance : Layout.Chance) (size : Nat) :
    (source.random chance size).size = size ∧ (source.random chance size).Simple
  preferential (links size : Nat) : 0 < links → links < size →
    (source.preferential links size).size = size ∧ (source.preferential links size).Simple
  sample (count : Nat) (members : List Nat) : count ≤ members.length →
    (source.sample count members).length = count ∧ (source.sample count members).Subperm members

theorem Source.lawful_ofDice (dice : Dice) : (Source.ofDice dice).Lawful where
  random chance size := ⟨rfl, Layout.simple_random dice chance size⟩
  preferential _ _ _ fits := ⟨rfl, Layout.simple_preferential dice fits⟩
  sample _ members enough := dice.sample_spec members enough 0

end SteinerTrees
