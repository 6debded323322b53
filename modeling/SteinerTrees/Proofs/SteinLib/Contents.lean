import Mathlib.Data.Sym.Sym2
import SteinerTrees.Proofs.Value.Limits
import SteinerTrees.Proofs.Value.Reading
import SteinerTrees.SteinLib

/-! # What a SteinLib file was read to

Reading a file drops loops and repeated pairs, line by line, so that no edge of the content is one. The number of nodes
is above every node that an edge or a terminal names, in whatever order the lines come. It does not look at nodes
below zero. There is an instance unless a list of so many nodes has no room. -/

namespace SteinerTrees.SteinLib

variable {contents result : Contents} {edges : List (Int × Int)} {source target node : Int} {part : Part}
  {lines : List String} {number : Nat} {text : String}

/-- The pairs that edges join, without order. -/
def pairs (edges : List (Int × Int)) : List (Sym2 Int) := edges.map fun edge => s(edge.1, edge.2)

theorem hasPair_iff : hasPair edges source target = true ↔ s(source, target) ∈ pairs edges := by
  simp only [hasPair, pairs, List.any_eq_true, List.mem_map, decide_eq_true_eq, Prod.ext_iff, Sym2.eq_iff]

/-- Edges are named by their places. -/
theorem namedEdges_eq_mapIdx (number : Nat) (edges : List (Int × Int)) :
    Contents.namedEdges number edges = edges.mapIdx fun i edge =>
      .dict [("source", .int edge.1), ("target", .int edge.2), ("name", .text s!"e{number + i}")] := by
  induction edges generalizing number with
  | nil => rfl
  | cons edge rest ih =>
    obtain ⟨source, target⟩ := edge
    rw [Contents.namedEdges, ih, List.mapIdx_cons]
    simp only [Nat.add_assoc, Nat.add_comm 1, Nat.add_zero]

namespace Contents

/-- All nodes that edges and terminals name. -/
def named (contents : Contents) : List Int :=
  contents.edges.flatMap (fun edge => [edge.1, edge.2]) ++ contents.terminals

/-- No edge is a loop, and no two join the same pair. -/
structure Simple (contents : Contents) : Prop where
  loopless : ∀ edge ∈ contents.edges, edge.1 ≠ edge.2
  pairs : (pairs contents.edges).Nodup

/-- Each line keeps the content simple. -/
theorem Simple.add (simple : contents.Simple) (statement : Statement) : (contents.add statement).Simple := by
  cases statement with
  | edge source target directed weighted =>
    by_cases dropped : source = target ∨ hasPair contents.edges source target = true
    · refine ⟨?_, ?_⟩ <;> simp only [Contents.add, if_pos dropped]
      · exact simple.loopless
      · exact simple.pairs
    · obtain ⟨differ, fresh⟩ := not_or.mp dropped
      rw [hasPair_iff] at fresh
      refine ⟨?_, ?_⟩ <;> simp only [Contents.add, if_neg dropped]
      · intro edge member
        rcases List.mem_append.mp member with old | new
        · exact simple.loopless edge old
        · rwa [List.mem_singleton.mp new]
      · rw [SteinLib.pairs, List.map_append]
        refine List.nodup_append.mpr ⟨simple.pairs, List.nodup_singleton _, ?_⟩
        rintro pair old other new rfl
        rw [List.mem_singleton.mp new] at old
        exact fresh old
  | _ =>
    -- No other line touches the edges.
    exact ⟨simple.loopless, simple.pairs⟩

theorem Simple.readLines (simple : contents.Simple) (read : readLines contents part number lines = .ok result) :
    result.Simple := by
  induction lines generalizing contents part number with
  | nil =>
    cases read
    exact simple
  | cons line rest ih =>
    unfold SteinLib.readLines at read
    split at read
    next statement _ => exact ih (simple.add statement) read
    next => cases read

theorem simple_of_read (read : SteinLib.read text = .ok contents) : contents.Simple := by
  unfold SteinLib.read at read
  split at read
  · split at read
    · have start : ({} : Contents).Simple := ⟨fun _ member => absurd member List.not_mem_nil, List.nodup_nil⟩
      exact start.readLines read
    · cases read
  · cases read

/-! ## The number of nodes -/

theorem foldl_max_le_iff (nodes : List Int) (start bound : Int) :
    nodes.foldl (fun m node => max m (node + 1)) start ≤ bound ↔ start ≤ bound ∧ ∀ node ∈ nodes, node < bound := by
  induction nodes generalizing start with
  | nil => simp
  | cons node rest ih =>
    rw [List.foldl_cons, ih, max_le_iff, List.forall_mem_cons, Int.add_one_le_iff, and_assoc]

theorem foldl_max_mem (nodes : List Int) (start : Int) :
    nodes.foldl (fun m node => max m (node + 1)) start = start ∨
      ∃ node ∈ nodes, nodes.foldl (fun m node => max m (node + 1)) start = node + 1 := by
  induction nodes generalizing start with
  | nil => exact .inl rfl
  | cons node rest ih =>
    rw [List.foldl_cons]
    rcases ih (max start (node + 1)) with same | ⟨other, member, same⟩
    · rcases max_choice start (node + 1) with old | new
      · exact .inl (same.trans old)
      · exact .inr ⟨node, List.mem_cons_self, same.trans new⟩
    · exact .inr ⟨other, List.mem_cons_of_mem _ member, same⟩

/-- The number of nodes is the one that is announced, or one more than a node that is named, whichever is largest. -/
theorem isGreatest_size (contents : Contents) :
    IsGreatest ({0, contents.nodes} ∪ {bound | ∃ node ∈ contents.named, bound = node + 1}) (contents.size : Int) := by
  have above := (foldl_max_le_iff contents.named 0 contents.extent).mp le_rfl
  have size : (contents.size : Int) = max contents.nodes contents.extent := by
    have positive := above.1
    rw [Contents.size]
    omega
  rw [size]
  constructor
  · rcases max_choice contents.nodes contents.extent with announced | named
    · rw [announced]
      exact .inl (.inr rfl)
    · rw [named]
      rcases foldl_max_mem contents.named 0 with none | some
      · exact .inl (.inl none)
      · exact .inr some
  · rintro bound ((rfl | rfl) | ⟨node, member, rfl⟩)
    · exact le_max_of_le_right above.1
    · exact le_max_left _ _
    · exact le_max_of_le_right (Int.add_one_le_iff.mpr (above.2 node member))

/-- A node that is named is below the number of nodes. -/
theorem lt_size (member : node ∈ contents.named) : node < contents.size :=
  Int.add_one_le_iff.mp (contents.isGreatest_size.2 (.inr ⟨node, member, rfl⟩))

/-! ## The instance -/

/-- The nodes as they are listed. -/
def labels (contents : Contents) : List Value := Value.numbers contents.size

theorem toInstance_eq_ok_iff {name problem : Value} : contents.toInstance name = .ok problem ↔
    contents.size < Nat.pow 2 60 ∧ problem = contents.withNodes name contents.labels := by
  rw [toInstance, map_eq_ok_iff]
  simp only [Value.listNumbers_eq_ok_iff]
  constructor
  · rintro ⟨_, ⟨short, rfl⟩, same⟩
    exact ⟨short, same⟩
  · rintro ⟨short, same⟩
    exact ⟨_, ⟨short, rfl⟩, same⟩

theorem toInstance_eq_error_iff {name : Value} {failure : Failure} :
    contents.toInstance name = .error failure ↔ Value.LacksSpace contents.size failure := by
  rw [toInstance, map_eq_error_iff, Value.listNumbers_eq_error_iff]

end Contents

end SteinerTrees.SteinLib
