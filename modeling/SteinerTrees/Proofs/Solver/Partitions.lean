import Mathlib
import SteinerTrees.Proofs.Solver.Merge

/-! # Merging as the search for a best partition

Whatever costs a table starts with, and without relaxed rows, the merged cell of a set costs the least that a partition
of the set costs at its vertex, where each block counts with the cost that it had at the start. Splitting a set in two,
over and over, leads to every partition. A cell that got cheaper names the greatest of its cheapest parts, the first in
the order in which parts are tried. -/

namespace SteinerTrees

variable {mask sub block i : Nat} {blocks others : Finset Nat}

/-! ## Partitions -/

/-- Nonempty sets of which exactly one has each member of a set, and none has others. -/
structure IsPartition (mask : Nat) (blocks : Finset Nat) : Prop where
  nonempty : ∀ block ∈ blocks, block ≠ 0
  within : ∀ block ∈ blocks, Within block mask
  once : ∀ i, mask.testBit i = true → ∃! block, block ∈ blocks ∧ block.testBit i = true

theorem Within.testBit_rest_iff (within : Within sub mask) :
    (mask ^^^ sub).testBit i = true ↔ mask.testBit i = true ∧ ¬ sub.testBit i = true := by
  have member := within i
  rw [Nat.testBit_xor]
  cases taken : sub.testBit i with
  | true => simp [member taken]
  | false => simp

namespace IsPartition

theorem single (nonempty : mask ≠ 0) : IsPartition mask {mask} where
  nonempty _ member := Finset.mem_singleton.mp member ▸ nonempty
  within _ member := Finset.mem_singleton.mp member ▸ .refl mask
  once _ taken := ⟨mask, ⟨Finset.mem_singleton_self mask, taken⟩, fun _ other => Finset.mem_singleton.mp other.1⟩

/-- Two blocks that share a member are one. -/
theorem eq_of_testBit (partition : IsPartition mask blocks) {other : Nat} (first : block ∈ blocks)
    (second : other ∈ blocks) (here : block.testBit i = true) (there : other.testBit i = true) : block = other :=
  (partition.once i (partition.within block first i here)).unique ⟨first, here⟩ ⟨second, there⟩

/-- A partition of a part and one of the rest have no block in common. -/
theorem disjoint (part : IsPart mask sub) (first : IsPartition sub blocks)
    (second : IsPartition (mask ^^^ sub) others) : Disjoint blocks others := by
  refine Finset.disjoint_left.mpr fun block here there => ?_
  obtain ⟨i, taken⟩ := Nat.exists_testBit_of_ne_zero (first.nonempty block here)
  have outside := (part.within.testBit_rest_iff.mp (second.within block there i taken)).2
  exact outside (first.within block here i taken)

/-- Partitions of a part and of the rest make one of the whole. -/
theorem union (part : IsPart mask sub) (first : IsPartition sub blocks) (second : IsPartition (mask ^^^ sub) others) :
    IsPartition mask (blocks ∪ others) := by
  refine ⟨?_, ?_, ?_⟩
  · intro block member
    exact (Finset.mem_union.mp member).elim (first.nonempty block) (second.nonempty block)
  · intro block member i taken
    rcases Finset.mem_union.mp member with here | there
    · exact part.within i (first.within block here i taken)
    · exact part.rest.within i (second.within block there i taken)
  · intro i taken
    by_cases chosen : sub.testBit i = true
    · obtain ⟨block, ⟨here, holds⟩, only⟩ := first.once i chosen
      refine ⟨block, ⟨Finset.mem_union_left _ here, holds⟩, ?_⟩
      rintro other ⟨member, also⟩
      rcases Finset.mem_union.mp member with same | there
      · exact only other ⟨same, also⟩
      · exact absurd chosen (part.within.testBit_rest_iff.mp (second.within other there i also)).2
    · obtain ⟨block, ⟨there, holds⟩, only⟩ := second.once i (part.within.testBit_rest_iff.mpr ⟨taken, chosen⟩)
      refine ⟨block, ⟨Finset.mem_union_right _ there, holds⟩, ?_⟩
      rintro other ⟨member, also⟩
      rcases Finset.mem_union.mp member with here | same
      · exact absurd (first.within other here i also) chosen
      · exact only other ⟨same, also⟩

/-- A block that is not the whole set is a part, and the other blocks are a partition of the rest. -/
theorem erase (partition : IsPartition mask blocks) (member : block ∈ blocks) (proper : block ≠ mask) :
    IsPart mask block ∧ IsPartition (mask ^^^ block) (blocks.erase block) := by
  have inside := partition.within block member
  refine ⟨⟨partition.nonempty block member, proper, inside⟩, ?_, ?_, ?_⟩
  · exact fun other kept => partition.nonempty other (Finset.mem_of_mem_erase kept)
  · intro other kept i taken
    obtain ⟨differ, among⟩ := Finset.mem_erase.mp kept
    refine inside.testBit_rest_iff.mpr ⟨partition.within other among i taken, fun also => ?_⟩
    exact differ (partition.eq_of_testBit among member taken also)
  · intro i taken
    obtain ⟨whole, outside⟩ := inside.testBit_rest_iff.mp taken
    obtain ⟨other, ⟨among, holds⟩, only⟩ := partition.once i whole
    have differ : other ≠ block := fun same => outside (same ▸ holds)
    refine ⟨other, ⟨Finset.mem_erase.mpr ⟨differ, among⟩, holds⟩, ?_⟩
    exact fun another both => only another ⟨Finset.mem_of_mem_erase both.1, both.2⟩

end IsPartition

/-! ## Costs -/

/-- The cost of a cell, which is infinite if no tree is known. -/
def Cell.price (cell : Cell) : WithTop Int :=
  match cell.cost with
  | some c => c
  | none => ⊤

namespace Table

variable {t before after : Table} {adjacency : Adjacency} {width m v n bound : Nat} {best cell : Cell}
  {subs : List Nat}

/-- What a part and the rest of a set cost together. -/
def splitCost (t : Table) (width mask v sub : Nat) : WithTop Int :=
  (t.entry width sub v).price + (t.entry width (mask ^^^ sub) v).price

/-- What the partitions of a set cost: the sums of the costs of their blocks. -/
def partitionCosts (t : Table) (width mask v : Nat) : Set (WithTop Int) :=
  {c | ∃ blocks, IsPartition mask blocks ∧ c = ∑ block ∈ blocks, (t.entry width block v).price}

/-- A cell that stands for a part and the rest of a set. -/
structure Takes (t : Table) (width mask v sub : Nat) (cell : Cell) : Prop where
  price : cell.price = t.splitCost width mask v sub
  mark : cell.mark = .merge
  arg : cell.arg = sub

/-! ## All parts of a set -/

theorem mergePart_takes (less : t.splitCost width mask v sub < best.price) :
    t.Takes width mask v sub (t.mergePart width mask v best sub) := by
  obtain ⟨a, first⟩ : ∃ a, (t.entry width sub v).cost = some a := by
    refine Option.ne_none_iff_exists'.mp fun absent => ?_
    simp [splitCost, Cell.price, absent] at less
  obtain ⟨b, second⟩ : ∃ b, (t.entry width (mask ^^^ sub) v).cost = some b := by
    refine Option.ne_none_iff_exists'.mp fun absent => ?_
    simp [splitCost, Cell.price, absent] at less
  have total : t.splitCost width mask v sub = ((a + b : Int) : WithTop Int) := by
    simp [splitCost, Cell.price, first, second]
  have below : costBelow (a + b) best.cost = true := by
    rw [total] at less
    unfold Cell.price at less
    cases known : best.cost with
    | none => rfl
    | some c =>
      rw [known] at less
      exact decide_eq_true (WithTop.coe_lt_coe.mp less)
  rw [mergePart_of_splits ⟨first, second⟩, if_pos below]
  exact ⟨total.symm, rfl, rfl⟩

theorem mergePart_of_le (le : best.price ≤ t.splitCost width mask v sub) :
    t.mergePart width mask v best sub = best := by
  rcases mergePart_cases t width mask v sub best with kept | ⟨a, b, ⟨first, second⟩, dearer, -⟩
  · exact kept
  · refine absurd ?_ dearer
    unfold splitCost Cell.price at le
    rw [first, second] at le
    cases known : best.cost with
    | none =>
      rw [known] at le
      exact absurd le (by simp [← WithTop.coe_add])
    | some c =>
      rw [known] at le
      exact atMost_some_iff.mpr (WithTop.coe_le_coe.mp le)

/-- If parts are tried from the greatest down, the first cheapest one is taken unless none costs less than the start. -/
theorem foldl_mergePart_first (t : Table) (width v : Nat) (descending : subs.Pairwise (· > ·)) (best : Cell) :
    ((∀ sub ∈ subs, best.price ≤ t.splitCost width mask v sub) ∧ subs.foldl (t.mergePart width mask v) best = best) ∨
    ∃ sub ∈ subs, t.splitCost width mask v sub < best.price ∧
      t.Takes width mask v sub (subs.foldl (t.mergePart width mask v) best) ∧
      ∀ other ∈ subs, t.splitCost width mask v sub ≤ t.splitCost width mask v other ∧
        (t.splitCost width mask v other = t.splitCost width mask v sub → other ≤ sub) := by
  induction subs generalizing best with
  | nil => exact .inl ⟨fun _ member => absurd member List.not_mem_nil, rfl⟩
  | cons next rest ih =>
    obtain ⟨above, descending⟩ := List.pairwise_cons.mp descending
    rw [List.foldl_cons]
    rcases lt_or_ge (t.splitCost width mask v next) best.price with less | le
    · have taken := mergePart_takes less
      right
      rcases ih descending (t.mergePart width mask v best next) with ⟨least, same⟩ | ⟨sub, member, lower, takes, least⟩
      · rw [same]
        rw [taken.price] at least
        refine ⟨next, List.mem_cons_self, less, taken, List.forall_mem_cons.mpr ⟨⟨le_rfl, fun _ => le_rfl⟩, ?_⟩⟩
        exact fun other later => ⟨least other later, fun _ => (above other later).le⟩
      · rw [taken.price] at lower
        refine ⟨sub, List.mem_cons_of_mem _ member, lower.trans less, takes, List.forall_mem_cons.mpr ⟨?_, least⟩⟩
        exact ⟨lower.le, fun same => absurd same lower.ne'⟩
    · rw [mergePart_of_le le]
      rcases ih descending best with ⟨least, same⟩ | ⟨sub, member, lower, takes, least⟩
      · exact .inl ⟨List.forall_mem_cons.mpr ⟨le, least⟩, same⟩
      · refine .inr ⟨sub, List.mem_cons_of_mem _ member, lower, takes, List.forall_mem_cons.mpr ⟨?_, least⟩⟩
        have dearer := lower.trans_le le
        exact ⟨dearer.le, fun same => absurd same dearer.ne'⟩

/-! ## The merged table -/

/-- Merging a set without relaxing it changes the cells of its row, each by all parts of the set. -/
theorem entry_mergeRow_plain (t : Table) (adjacency : Adjacency) (fits : m * width + width ≤ t.size)
    (inside : v < width) : (mergeRow false width adjacency t m).entry width mask v =
      if mask = m then t.mergeCell width m v else t.entry width mask v := by
  rw [mergeRow]
  by_cases single : isSingle m = true
  · have whole : t.mergeCell width m v = t.entry width m v := by
      rw [mergeCell, List.eq_nil_iff_forall_not_mem.mpr fun sub member =>
        isSingle_iff.mp single sub (mem_submasks_iff.mp member), List.foldl_nil]
    rw [if_pos single]
    split_ifs with same
    · rw [same, whole]
    · rfl
  · rw [if_neg single, if_neg Bool.false_ne_true, entry_writeRow (by simp) inside fits]
    refine if_congr Iff.rfl ?_ rfl
    rw [List.getD_eq_getElem?_getD, List.getElem?_map, List.getElem?_range inside, Option.map_some, Option.getD_some]

theorem cell_mergeRow_of_le (t : Table) (adjacency : Adjacency) (behind : m * width + width ≤ i) :
    (mergeRow false width adjacency t m).cell i = t.cell i := by
  rw [mergeRow]
  by_cases single : isSingle m = true
  · rw [if_pos single]
  · rw [if_neg single, if_neg Bool.false_ne_true, cell_writeRow, List.length_map, List.length_range, if_neg (by omega)]

theorem foldl_mergePart_congr (parts : ∀ sub, IsPart mask sub → after.entry width sub v = t.entry width sub v)
    (best : Cell) : (submasks mask).foldl (after.mergePart width mask v) best =
      (submasks mask).foldl (t.mergePart width mask v) best := by
  refine List.foldl_ext _ _ _ fun best sub member => ?_
  have part := mem_submasks_iff.mp member
  have first : after.cell (sub * width + v) = t.cell (sub * width + v) := parts sub part
  have second : after.cell ((mask ^^^ sub) * width + v) = t.cell ((mask ^^^ sub) * width + v) := parts _ part.rest
  rw [mergePart, mergePart, first, second]

/-- While sets are merged in ascending order, the rows of those below a bound are final, and all others as at the
start. -/
structure MergedTo (before : Table) (n width bound : Nat) (t : Table) : Prop where
  size : t.size = before.size
  done : ∀ mask < bound, ∀ v < width, t.entry width mask v =
    (submasks mask).foldl (t.mergePart width mask v) (before.entry width mask v)
  pending : ∀ mask, bound ≤ mask → ∀ v < width, t.entry width mask v = before.entry width mask v
  outside : ∀ i, 2 ^ n * width ≤ i → t.cell i = before.cell i

theorem MergedTo.mergeRow (merged : before.MergedTo n width m t) (fits : 2 ^ n * width ≤ before.size)
    (below : m < 2 ^ n) (adjacency : Adjacency) :
    before.MergedTo n width (m + 1) (mergeRow false width adjacency t m) := by
  have last : m * width + width ≤ 2 ^ n * width := by
    rw [← Nat.succ_mul]
    exact Nat.mul_le_mul_right width below
  have rows : ∀ mask, ∀ v < width, (Table.mergeRow false width adjacency t m).entry width mask v =
      if mask = m then t.mergeCell width m v else t.entry width mask v :=
    fun mask v inside => entry_mergeRow_plain t adjacency (merged.size ▸ last.trans fits) inside
  refine ⟨?_, ?_, ?_, ?_⟩
  · rw [size_mergeRow, merged.size]
  · intro mask upto v inside
    have parts : ∀ sub, IsPart mask sub →
        (Table.mergeRow false width adjacency t m).entry width sub v = t.entry width sub v := by
      intro sub part
      have smaller := part.lt
      rw [rows sub v inside, if_neg (by omega)]
    rw [rows mask v inside, foldl_mergePart_congr parts]
    split_ifs with same
    · rw [mergeCell, same, ← merged.pending m le_rfl v inside]
    · exact merged.done mask (by omega) v inside
  · intro mask above v inside
    rw [rows mask v inside, if_neg (by omega), merged.pending mask (by omega) v inside]
  · intro i behind
    rw [cell_mergeRow_of_le t adjacency (last.trans behind), merged.outside i behind]

theorem mergedTo_merged (fits : 2 ^ n * width ≤ t.size) (adjacency : Adjacency) :
    t.MergedTo n width (2 ^ n) (t.merged false n width adjacency) := by
  have upTo : ∀ bound ≤ 2 ^ n,
      t.MergedTo n width bound ((List.range bound).foldl (Table.mergeRow false width adjacency) t) := by
    intro bound
    induction bound with
    | zero => exact fun _ => ⟨rfl, fun mask below => absurd below (Nat.not_lt_zero mask), fun _ _ _ _ => rfl,
        fun _ _ => rfl⟩
    | succ bound ih =>
      intro upto
      rw [List.range_succ, List.foldl_append, List.foldl_cons, List.foldl_nil]
      exact (ih (by omega)).mergeRow fits (by omega) adjacency
  exact upTo _ le_rfl

/-! ## Best partitions -/

/-- Some part and the rest of a set cost less together than the set did before. -/
def Improves (before after : Table) (width mask v : Nat) : Prop :=
  ∃ sub, IsPart mask sub ∧ after.splitCost width mask v sub < (before.entry width mask v).price

/-- A table in which every set of `n` terminals has the cost of its best partition. Where a set got cheaper, its cell
names the greatest of its cheapest parts. -/
structure IsPartitioned (before after : Table) (n width : Nat) : Prop where
  size : after.size = before.size
  least : ∀ mask < 2 ^ n, mask ≠ 0 → ∀ v < width,
    IsLeast (before.partitionCosts width mask v) (after.entry width mask v).price
  empty : ∀ v < width, after.entry width 0 v = before.entry width 0 v
  single : ∀ i < n, ∀ v < width, after.entry width (2 ^ i) v = before.entry width (2 ^ i) v
  improved : ∀ mask < 2 ^ n, ∀ v < width, before.Improves after width mask v →
    (after.entry width mask v).mark = .merge ∧
    IsGreatest {sub | IsPart mask sub ∧ after.splitCost width mask v sub = (after.entry width mask v).price}
      (after.entry width mask v).arg
  kept : ∀ mask < 2 ^ n, ∀ v < width, ¬ before.Improves after width mask v →
    after.entry width mask v = before.entry width mask v
  outside : ∀ i, 2 ^ n * width ≤ i → after.cell i = before.cell i

namespace MergedTo

variable (merged : before.MergedTo n width (2 ^ n) after)

include merged

/-- A cell is as it was, and no part improves it, or it takes the greatest of its cheapest parts. -/
theorem cases (below : mask < 2 ^ n) (inside : v < width) :
    (¬ before.Improves after width mask v ∧ after.entry width mask v = before.entry width mask v) ∨
    ∃ sub, IsPart mask sub ∧ after.splitCost width mask v sub < (before.entry width mask v).price ∧
      after.Takes width mask v sub (after.entry width mask v) ∧
      ∀ other, IsPart mask other → after.splitCost width mask v sub ≤ after.splitCost width mask v other ∧
        (after.splitCost width mask v other = after.splitCost width mask v sub → other ≤ sub) := by
  rw [merged.done mask below v inside]
  rcases foldl_mergePart_first after width v (pairwise_submasks mask)
    (before.entry width mask v) with ⟨least, same⟩ | ⟨sub, member, less, takes, least⟩
  · refine .inl ⟨?_, same⟩
    rintro ⟨sub, part, less⟩
    exact (least sub (mem_submasks_iff.mpr part)).not_gt less
  · exact .inr ⟨sub, mem_submasks_iff.mp member, less, takes, fun other part => least other (mem_submasks_iff.mpr part)⟩

theorem price_le (below : mask < 2 ^ n) (inside : v < width) :
    (after.entry width mask v).price ≤ (before.entry width mask v).price := by
  rcases merged.cases below inside with ⟨-, same⟩ | ⟨sub, -, less, takes, -⟩
  · rw [same]
  · rw [takes.price]
    exact less.le

theorem price_le_splitCost (below : mask < 2 ^ n) (inside : v < width) (part : IsPart mask sub) :
    (after.entry width mask v).price ≤ after.splitCost width mask v sub := by
  rcases merged.cases below inside with ⟨unimproved, same⟩ | ⟨best, -, -, takes, least⟩
  · rw [same]
    exact not_lt.mp fun less => unimproved ⟨sub, part, less⟩
  · rw [takes.price]
    exact (least sub part).1

/-- Some partition has the cost of the cell: the whole set, or the partitions of the two parts that the cell takes. -/
theorem exists_partition (nonempty : mask ≠ 0) (below : mask < 2 ^ n) (inside : v < width) :
    (after.entry width mask v).price ∈ before.partitionCosts width mask v := by
  induction mask using Nat.strongRecOn with
  | _ mask ih =>
    rcases merged.cases below inside with ⟨-, same⟩ | ⟨sub, part, -, takes, -⟩
    · exact ⟨{mask}, .single nonempty, by rw [Finset.sum_singleton, same]⟩
    · obtain ⟨blocks, first, cost⟩ := ih sub part.lt part.nonempty (part.lt_two_pow below)
      obtain ⟨others, second, rest⟩ := ih _ part.rest.lt part.rest.nonempty (part.rest.lt_two_pow below)
      refine ⟨blocks ∪ others, .union part first second, ?_⟩
      rw [Finset.sum_union (IsPartition.disjoint part first second), ← cost, ← rest, takes.price, splitCost]

/-- No partition costs less than the cell: one block and the others are a part and the rest. -/
theorem price_le_of_partition (nonempty : mask ≠ 0) (below : mask < 2 ^ n) (inside : v < width)
    (partition : IsPartition mask blocks) :
    (after.entry width mask v).price ≤ ∑ block ∈ blocks, (before.entry width block v).price := by
  induction mask using Nat.strongRecOn generalizing blocks with
  | _ mask ih =>
    obtain ⟨i, taken⟩ := Nat.exists_testBit_of_ne_zero nonempty
    obtain ⟨block, ⟨member, -⟩, -⟩ := partition.once i taken
    rw [← Finset.add_sum_erase _ _ member]
    by_cases whole : block = mask
    · -- A block that is the whole set leaves none for the others.
      subst whole
      have alone : blocks.erase block = ∅ := by
        refine Finset.eq_empty_iff_forall_notMem.mpr fun other kept => ?_
        obtain ⟨differ, among⟩ := Finset.mem_erase.mp kept
        obtain ⟨j, holds⟩ := Nat.exists_testBit_of_ne_zero (partition.nonempty other among)
        exact differ (partition.eq_of_testBit among member holds (partition.within other among j holds))
      rw [alone, Finset.sum_empty, add_zero]
      exact merged.price_le below inside
    · obtain ⟨part, others⟩ := partition.erase member whole
      calc (after.entry width mask v).price
          ≤ (after.entry width block v).price + (after.entry width (mask ^^^ block) v).price :=
            merged.price_le_splitCost below inside part
        _ ≤ _ := add_le_add (merged.price_le (part.lt_two_pow below) inside)
            (ih _ part.rest.lt part.rest.nonempty (part.rest.lt_two_pow below) others)

end MergedTo

/-- Without relaxed rows, merging gives every set the cost of its best partition. -/
theorem isPartitioned_merged (fits : 2 ^ n * width ≤ t.size) (adjacency : Adjacency) :
    t.IsPartitioned (t.merged false n width adjacency) n width := by
  have merged := mergedTo_merged fits adjacency
  generalize t.merged false n width adjacency = after at merged ⊢
  -- A set with at most one member has no parts.
  have kept : ∀ mask < 2 ^ n, ∀ v < width, ¬ t.Improves after width mask v →
      after.entry width mask v = t.entry width mask v := by
    intro mask below v inside unimproved
    rcases merged.cases below inside with ⟨-, same⟩ | ⟨sub, part, less, -⟩
    · exact same
    · exact absurd ⟨sub, part, less⟩ unimproved
  have single : ∀ mask < 2 ^ n, isSingle mask = true → ∀ v < width,
      after.entry width mask v = t.entry width mask v :=
    fun mask below one v inside => kept mask below v inside fun ⟨sub, part, _⟩ => isSingle_iff.mp one sub part
  refine ⟨merged.size, ?_, ?_, ?_, ?_, kept, merged.outside⟩
  · intro mask below nonempty v inside
    refine ⟨merged.exists_partition nonempty below inside, ?_⟩
    rintro c ⟨blocks, partition, rfl⟩
    exact merged.price_le_of_partition nonempty below inside partition
  · exact single 0 (Nat.two_pow_pos n) rfl
  · exact fun i small => single _ (Nat.pow_lt_pow_right (by omega) small) (isSingle_two_pow i)
  · intro mask below v inside improves
    rcases merged.cases below inside with ⟨unimproved, -⟩ | ⟨sub, part, less, takes, least⟩
    · exact absurd improves unimproved
    · refine ⟨takes.mark, ?_⟩
      rw [takes.arg, takes.price]
      exact ⟨⟨part, rfl⟩, fun other ⟨also, same⟩ => (least other also).2 same⟩

/-- The costs of three terminals at one vertex. Two pairs have trees of their own, one of them at no cost, and the empty
set has a cost that is never looked at. -/
def pairedCosts : Table :=
  #[⟨some (-9), .unset, 5⟩, ⟨some 1, .direct, 0⟩, ⟨some 1, .direct, 1⟩, {}, ⟨some 1, .direct, 2⟩, ⟨some 0, .move, 3⟩,
    ⟨some 0, .unset, 7⟩, ⟨some 4, .move, 1⟩]

/-- Two splits of the whole set cost the same, and the greater part is named. -/
theorem isPartitioned_pairedCosts : 2 ^ 3 * 1 ≤ pairedCosts.size ∧
    (pairedCosts.merged false 3 1 #[[]]).toList = [⟨some (-9), .unset, 5⟩, ⟨some 1, .direct, 0⟩, ⟨some 1, .direct, 1⟩,
      ⟨some 2, .merge, 2⟩, ⟨some 1, .direct, 2⟩, ⟨some 0, .move, 3⟩, ⟨some 0, .unset, 7⟩, ⟨some 1, .merge, 6⟩] ∧
    pairedCosts.IsPartitioned (pairedCosts.merged false 3 1 #[[]]) 3 1 := by
  have fits : 2 ^ 3 * 1 ≤ pairedCosts.size := by decide
  exact ⟨fits, by decide +kernel, isPartitioned_merged fits #[[]]⟩

end Table

end SteinerTrees
