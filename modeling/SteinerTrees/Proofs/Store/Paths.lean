import SteinerTrees.Proofs.Graph.EarlySearch
import SteinerTrees.Proofs.Store.Consistent
import SteinerTrees.Proofs.Value.Limits
import Mathlib.Order.Bounds.Basic

/-! # Hops and paths of stores

A store counts the links of a shortest path from one vertex to each vertex, and finds one such path between any two
vertices that have a path. Of several it takes the same one wherever it starts: between two vertices on a path, the path
is the segment of it. -/

namespace SteinerTrees.Store

open Hops (IsWay IsFirst explore visit?)

variable {g : Graph} {calls : List Call} {source target : Ref} {u v w d : Nat} {way : List Nat}

/-- A path along links without repetition, with a number of steps. -/
structure IsPath (s : Store) (u v steps : Nat) (way : List Nat) : Prop where
  head : way.head? = some u
  last : way.getLast? = some v
  chain : way.IsChain fun x y => ∃ link ∈ s.links.toList, link.pair = s(x, y)
  nodup : way.Nodup
  length : way.length = steps + 1

theorem isChain_iff (valid : g.WellFormed) : way.IsChain (fun x y => y ∈ g.adjacency.getD x []) ↔
    way.IsChain fun x y => ∃ link ∈ (ofGraph g).links.toList, link.pair = s(x, y) := by
  simp only [valid.mem_adjacency_iff, Graph.mem_edgeSet_iff]
  rfl

theorem IsPath.isWay (path : (ofGraph g).IsPath u v d way) (valid : g.WellFormed) : IsWay g.adjacency u v way :=
  ⟨path.head, path.last, (isChain_iff valid).mpr path.chain⟩

theorem path_ofGraph (first : (ofGraph g).resolve source = .ok u) (second : (ofGraph g).resolve target = .ok v) :
    (ofGraph g).path source target = g.path u v := by
  rw [path, first, second, graph_ofGraph]
  rfl

/-- A history that leaves two shortest paths from the first vertex to the fifth, and a vertex without links. -/
def forkedCalls : List Call :=
  [.edge (.text "a") (.text "b") .null, .edge (.text "a") (.text "c") .null, .edge (.text "c") (.text "d") .null,
    .edge (.text "d") (.text "b") .null, .edge (.text "d") (.int 5) .null, .vertex (.tuple [])]

/-- After every history the path between two vertices on a path is the segment of that path from one to the other. -/
theorem path_segment_after (calls : List Call) (first : (after calls).resolve source = .ok u)
    (second : (after calls).resolve target = .ok v) (together : (after calls).graph.simple.Reachable u v) :
    ∃ way, (after calls).path source target = .ok way ∧ ∀ i j, i ≤ j → ∀ x y : Ref, ∀ a b,
      way[i]? = some a → way[j]? = some b → (after calls).resolve x = .ok a → (after calls).resolve y = .ok b →
        (after calls).path x y = .ok ((way.take (j + 1)).drop i) := by
  have valid := (Graph.built_after calls).wellFormed
  rw [after_eq] at first second together ⊢
  generalize Graph.after calls = g at valid first second together ⊢
  have inside := lt_size_of_resolve valid first
  rw [graph_ofGraph] at together
  obtain ⟨way, found⟩ := valid.exists_path inside (Graph.simple_reachable_iff.mp together)
  refine ⟨way, (path_ofGraph first second).trans found, fun i j ordered x y a b at_i at_j start stop => ?_⟩
  have whole := (valid.isFirst_iff inside).mpr found
  rw [path_ofGraph start stop, ← valid.isFirst_iff (lt_size_of_resolve valid start)]
  have parts : way = way.take i ++ (way.take (j + 1)).drop i ++ way.drop (j + 1) := by
    have front : (way.take (j + 1)).take i = way.take i := by rw [List.take_take, Nat.min_eq_left (by omega)]
    rw [← front, List.take_append_drop, List.take_append_drop]
  have below := (List.getElem?_eq_some_iff.mp at_j).1
  rw [parts] at whole
  apply whole.segment
  · rw [List.head?_drop, List.getElem?_take_of_lt (by omega), at_i]
  · rw [List.getLast?_drop, if_neg (by rw [List.length_take]; omega), List.getLast?_take, if_neg (Nat.succ_ne_zero j),
      Nat.add_sub_cancel, at_j, Option.some_or]

/-- Of the two shortest paths the one by way of the second vertex is taken, and from there it goes on alike. -/
theorem path_segment_after_forkedCalls :
    (after forkedCalls).resolve (.label (.text "a")) = .ok 0 ∧ (after forkedCalls).resolve (.object (.int 5)) = .ok 4 ∧
    (after forkedCalls).graph.simple.Reachable 0 4 ∧
    (after forkedCalls).path (.label (.text "a")) (.object (.int 5)) = .ok [0, 1, 3, 4] ∧
    (after forkedCalls).path (.object (.text "b")) (.label (.int 5)) = .ok [1, 3, 4] := by
  have first : (after forkedCalls).resolve (.label (.text "a")) = .ok 0 := by rfl
  have second : (after forkedCalls).resolve (.object (.int 5)) = .ok 4 := by rfl
  have adjacent : ∀ u v, s(u, v) ∈ (after forkedCalls).graph.edgeSet → u ≠ v →
      (after forkedCalls).graph.simple.Reachable u v :=
    fun u v edge differ => (Graph.simple_adj_iff.mpr ⟨edge, differ⟩).reachable
  have together : (after forkedCalls).graph.simple.Reachable 0 4 :=
    ((adjacent 0 1 (by decide +kernel) (by decide)).trans (adjacent 1 3 (by decide +kernel) (by decide))).trans
      (adjacent 3 4 (by decide +kernel) (by decide))
  have evaluated : (after forkedCalls).path (.label (.text "a")) (.object (.int 5)) = .ok [0, 1, 3, 4] :=
    eq_ok_of_toOption (by decide +kernel)
  obtain ⟨way, found, segments⟩ := path_segment_after forkedCalls first second together
  obtain rfl : way = [0, 1, 3, 4] := Except.ok.inj (found.symm.trans evaluated)
  exact ⟨first, second, together, found,
    segments 1 3 (by decide) (.object (.text "b")) (.label (.int 5)) 1 4 rfl rfl (by rfl) (by rfl)⟩

end SteinerTrees.Store
