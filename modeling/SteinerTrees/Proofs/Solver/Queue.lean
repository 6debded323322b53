import Mathlib.Algebra.GroupWithZero.Nat
import Mathlib.Data.Prod.Lex
import Mathlib.Data.Int.Order.Basic
import SteinerTrees.Proofs.Solver.Relax

/-! # Relaxing with a queue

A row can be relaxed in place, and without a search for the cheapest open vertex. A queue holds vertices under their
costs; a vertex that has become cheaper is entered once more, and its older entry is dropped when its turn comes. The
least entry that is not dropped is the open vertex that is settled next, so both ways leave the same row. A vertex is
settled once, and enters its neighbours at most once each: the queue is empty after as many turns as there are
vertices and neighbours. -/

namespace SteinerTrees

/-- Vertices under costs. The least entry has the lowest cost and, of several with that cost, the lowest index. -/
abbrev Queue := List (ℤ ×ₗ ℕ)

variable {adjacency : Adjacency} {before row : Array Cell} {t : Table} {queue : Queue} {vs found : List Nat}
  {base u v w : Nat} {cost c d : Int}

namespace Table

/-- Lowers the cost of `w` to one more than the given cost of `u`, if that is less, and enters `w` under it. -/
def lower (base u : Nat) (cost : Int) (s : Table × Queue) (w : Nat) : Table × Queue :=
  if costBelow (cost + 1) (s.1.cell (base + w)).cost then
    (s.1.set! (base + w) ⟨some (cost + 1), .move, u⟩, toLex (cost + 1, w) :: s.2)
  else s

/-- Takes the least entry. It is dropped if its vertex costs less by now; otherwise the neighbours are lowered. -/
def turn (base : Nat) (adjacency : Adjacency) (s : Table × Queue) : Table × Queue :=
  match s.2.min? with
  | none => s
  | some entry =>
    let (cost, u) := ofLex entry
    if (s.1.cell (base + u)).cost.any (· < cost) then (s.1, s.2.erase entry)
    else (adjacency.getD u []).foldl (lower base u cost) (s.1, s.2.erase entry)

/-- The vertices of a row that have a cost, under their costs. -/
def entries (t : Table) (base width : Nat) : Queue :=
  (List.range width).filterMap fun v => (t.cell (base + v)).cost.map fun cost => toLex (cost, v)

/-! ## Rows inside tables -/

/-- A table with other cells in one row. -/
abbrev withRow (t : Table) (base : Nat) (row : Array Cell) : Table := t.writeRow base row.toList

theorem cell_withRow (fits : base + row.size ≤ t.size) (inside : v < row.size) :
    (t.withRow base row).cell (base + v) = row.getD v {} := by
  rw [cell_writeRow, Array.length_toList, if_pos ⟨by omega, by omega, by omega⟩, Nat.add_sub_cancel_left,
    List.getD_eq_getElem?_getD, Array.getElem?_toList, Array.getD_eq_getD_getElem?]

theorem row_withRow (fits : base + row.size ≤ t.size) : (t.withRow base row).row base row.size = row := by
  refine Array.ext (size_row ..) fun v _ inside => ?_
  have same : ((t.withRow base row).row base row.size).getD v {} = row.getD v {} := by
    rw [getD_row inside, cell_withRow fits inside]
  rwa [Array.getD_eq_getD_getElem?, Array.getD_eq_getD_getElem?, Array.getElem?_eq_getElem inside,
    Array.getElem?_eq_getElem] at same

theorem ext_cell {s t : Table} (size : s.size = t.size) (cells : ∀ i < t.size, s.cell i = t.cell i) : s = t := by
  refine Array.ext size fun i first second => ?_
  have same := cells i second
  rwa [cell, cell, Array.getD_eq_getD_getElem?, Array.getD_eq_getD_getElem?, Array.getElem?_eq_getElem first,
    Array.getElem?_eq_getElem second] at same

theorem set_withRow (fits : base + row.size ≤ t.size) (inside : v < row.size) (cell : Cell) :
    (t.withRow base row).set! (base + v) cell = t.withRow base (row.set! v cell) := by
  have sizes : (row.set! v cell).size = row.size := by
    rw [Array.set!_eq_setIfInBounds, Array.size_setIfInBounds]
  apply ext_cell
  · rw [Array.set!_eq_setIfInBounds, Array.size_setIfInBounds, size_writeRow, size_writeRow]
  · intro i bound
    rw [Table.cell, getD_set, size_writeRow, ← Table.cell, cell_writeRow, cell_writeRow, Array.length_toList,
      Array.length_toList, sizes]
    by_cases within : base ≤ i ∧ i < base + row.size ∧ i < t.size
    · rw [if_pos within, if_pos within, List.getD_eq_getElem?_getD, List.getD_eq_getElem?_getD, Array.getElem?_toList,
        Array.getElem?_toList, ← Array.getD_eq_getD_getElem?, ← Array.getD_eq_getD_getElem?, getD_set]
      by_cases here : base + v = i
      · rw [if_pos ⟨here, by omega⟩, if_pos ⟨by omega, inside⟩]
      · rw [if_neg fun both => here both.1, if_neg fun both => here (by omega)]
    · rw [if_neg within, if_neg within, if_neg]
      rintro ⟨rfl, -⟩
      exact within ⟨by omega, by omega, by omega⟩

/-- A table is itself with the row that it has. -/
theorem withRow_row (t : Table) (base width : Nat) : t.withRow base (t.row base width) = t := by
  apply ext_cell (size_writeRow ..)
  intro i _
  rw [cell_writeRow, Array.length_toList, size_row]
  split_ifs with within
  · rw [List.getD_eq_getElem?_getD, Array.getElem?_toList, ← Array.getD_eq_getD_getElem?, getD_row (by omega),
      Nat.add_sub_cancel' within.1]
  · rfl

end Table

/-- What is cheap enough is not lowered. -/
theorem getD_relaxEdge_of_atMost (cheap : AtMost cost (row.getD v {}).cost) :
    (relaxEdge u cost row w).getD v {} = row.getD v {} := by
  rw [getD_relaxEdge, if_neg]
  rintro ⟨rfl, -, below⟩
  exact costBelow_iff.mp below (cheap.mono (by omega))

/-! ## What a queue holds -/

/-- What holds of the queue while vertices are settled: an entry is not below the cost of its vertex, an open vertex
with a cost is entered under it, and a settled one is not. -/
structure Queued (row : Array Cell) (unsettled : List Nat) (queue : Queue) : Prop where
  nodup : queue.Nodup
  known : ∀ c v, toLex (c, v) ∈ queue → v < row.size ∧ AtMost c (row.getD v {}).cost
  current : ∀ v ∈ unsettled, ∀ c, (row.getD v {}).cost = some c → toLex (c, v) ∈ queue
  stale : ∀ c v, toLex (c, v) ∈ queue → v ∉ unsettled → (row.getD v {}).cost ≠ some c

namespace Queued

theorem start (t : Table) (base width : Nat) :
    Queued (t.row base width) (List.range width) (t.entries base width) := by
  have mem_iff : ∀ c v, toLex (c, v) ∈ t.entries base width ↔ v < width ∧ (t.cell (base + v)).cost = some c := by
    intro c v
    simp only [Table.entries, List.mem_filterMap, List.mem_range, Option.map_eq_some_iff, EmbeddingLike.apply_eq_iff_eq,
      Prod.mk.injEq]
    exact ⟨fun ⟨_, inside, _, known, same, rfl⟩ => ⟨inside, same ▸ known⟩, fun ⟨inside, known⟩ =>
      ⟨v, inside, c, known, rfl, rfl⟩⟩
  refine ⟨?_, fun c v member => ?_, fun v inside c known => ?_, fun c v member outside => ?_⟩
  · refine List.Nodup.filterMap (fun a b entry first second => ?_) List.nodup_range
    obtain ⟨_, -, same⟩ := Option.map_eq_some_iff.mp first
    obtain ⟨_, -, rfl⟩ := Option.map_eq_some_iff.mp second
    exact congrArg (fun entry => (ofLex entry).2) same
  · obtain ⟨inside, known⟩ := (mem_iff c v).mp member
    rw [Table.size_row, Table.getD_row inside, known]
    exact ⟨inside, atMost_some_iff.mpr le_rfl⟩
  · have inside := List.mem_range.mp inside
    rw [Table.getD_row inside] at known
    exact (mem_iff c v).mpr ⟨inside, known⟩
  · exact absurd (List.mem_range.mpr ((mem_iff c v).mp member).1) outside

/-- Without entries no open vertex has a cost. -/
theorem cheapest?_of_nil (queued : Queued row vs []) : cheapest? row vs = none := by
  cases chosen : cheapest? row vs with
  | none => rfl
  | some u =>
    obtain ⟨member, c, known, -⟩ := cheapest?_eq_some chosen
    exact absurd (queued.current u member c known) List.not_mem_nil

/-- The least entry is stale, or it is that of the cheapest open vertex. -/
theorem least_cases (queued : Queued row vs queue) (ascending : vs.Pairwise (· < ·))
    (least : queue.min? = some (toLex (d, u))) :
    (∃ c < d, (row.getD u {}).cost = some c) ∨ (cheapest? row vs = some u ∧ (row.getD u {}).cost = some d) := by
  obtain ⟨entered, first⟩ := List.min?_eq_some_iff.mp least
  obtain ⟨-, c, known, below⟩ := queued.known d u entered
  rcases lt_or_eq_of_le below with cheaper | rfl
  · exact .inl ⟨c, cheaper, known⟩
  refine .inr ⟨?_, known⟩
  have open_ : u ∈ vs := by
    by_contra settled
    exact queued.stale c u entered settled known
  cases chosen : cheapest? row vs with
  | none =>
    rw [cheapest?_eq_none chosen open_] at known
    cases known
  | some x =>
    obtain ⟨member, e, best, cheapest⟩ := cheapest?_eq_some chosen
    obtain ⟨_, same, notDearer⟩ := cheapest u open_ c known
    cases best.symm.trans same
    have later : c < e ∨ c = e ∧ u ≤ x := Prod.Lex.toLex_le_toLex.mp (first _ (queued.current x member e best))
    obtain ⟨rfl, before⟩ : c = e ∧ u ≤ x := later.resolve_left (by omega)
    congr 1
    by_contra differ
    obtain ⟨_, less, same⟩ := cheapest?_first ascending chosen u open_ (by omega) c known
    cases best.symm.trans same
    exact lt_irrefl _ less

/-- Dropping a stale entry. -/
theorem drop (queued : Queued row vs queue) (cheaper : ∃ d < c, (row.getD u {}).cost = some d) :
    Queued row vs (queue.erase (toLex (c, u))) where
  nodup := queued.nodup.erase _
  known e v member := queued.known e v (List.mem_of_mem_erase member)
  stale e v member := queued.stale e v (List.mem_of_mem_erase member)
  current v member e known := by
    refine (queued.nodup.mem_erase_iff).mpr ⟨fun same => ?_, queued.current v member e known⟩
    obtain ⟨rfl, rfl⟩ := Prod.mk.inj (toLex_inj.mp same)
    obtain ⟨d, less, other⟩ := cheaper
    cases known.symm.trans other
    exact lt_irrefl _ less

/-- Taking the entry of the vertex that is settled next. -/
theorem take (queued : Queued row vs queue) (distinct : vs.Nodup) (known : (row.getD u {}).cost = some d) :
    Queued row (vs.erase u) (queue.erase (toLex (d, u))) where
  nodup := queued.nodup.erase _
  known c v member := queued.known c v (List.mem_of_mem_erase member)
  current v member c cost := by
    obtain ⟨differ, open_⟩ := distinct.mem_erase_iff.mp member
    refine (queued.nodup.mem_erase_iff).mpr ⟨fun same => ?_, queued.current v open_ c cost⟩
    exact differ (Prod.mk.inj (toLex_inj.mp same)).2
  stale c v member settled := by
    obtain ⟨differ, entered⟩ := (queued.nodup.mem_erase_iff).mp member
    by_cases same : v = u
    · subst same
      rintro cost
      cases known.symm.trans cost
      exact differ rfl
    · exact queued.stale c v entered fun open_ => settled ((List.mem_erase_of_ne same).mpr open_)

/-- Lowering one vertex keeps the queue: only an open vertex is lowered, and it had no entry under its new cost. -/
theorem lower (queued : Queued row vs queue) (fits : base + row.size ≤ t.size) (inside : w < row.size)
    (settled : ∀ v < row.size, v ∉ vs → AtMost cost (row.getD v {}).cost) :
    ∃ more, Table.lower base u cost (t.withRow base row, queue) w = (t.withRow base (relaxEdge u cost row w), more) ∧
      Queued (relaxEdge u cost row w) vs more ∧ more.length ≤ queue.length + 1 := by
  unfold Table.lower
  simp only [Table.cell_withRow fits inside]
  by_cases below : costBelow (cost + 1) (row.getD w {}).cost = true
  · rw [if_pos below, Table.set_withRow fits inside, ← show relaxEdge u cost row w = _ from if_pos below]
    refine ⟨_, rfl, ?_, le_of_eq List.length_cons⟩
    have dearer := costBelow_iff.mp below
    have now : (relaxEdge u cost row w).getD w {} = ⟨some (cost + 1), .move, u⟩ := by
      rw [getD_relaxEdge, if_pos ⟨rfl, inside, below⟩]
    have others : ∀ v, v ≠ w → (relaxEdge u cost row w).getD v {} = row.getD v {} := fun v differ => by
      rw [getD_relaxEdge, if_neg fun all => differ all.1.symm]
    have open_ : w ∈ vs := by
      by_contra outside
      exact dearer ((settled w inside outside).mono (by omega))
    constructor
    case nodup =>
      exact List.nodup_cons.mpr ⟨fun old => dearer (queued.known _ _ old).2, queued.nodup⟩
    case known =>
      intro c v member
      rw [size_relaxEdge]
      rcases List.mem_cons.mp member with same | old
      · obtain ⟨rfl, rfl⟩ := Prod.mk.inj (toLex_inj.mp same)
        exact ⟨inside, by rw [now]; exact atMost_some_iff.mpr le_rfl⟩
      · obtain ⟨bound, atMost⟩ := queued.known c v old
        refine ⟨bound, ?_⟩
        by_cases same : v = w
        · rw [same, now, atMost_some_iff]
          by_contra above
          exact dearer ((same ▸ atMost).mono (by omega))
        · rwa [others v same]
    case current =>
      intro v member c known
      by_cases same : v = w
      · rw [same, now] at known
        cases known
        rw [same]
        exact List.mem_cons_self
      · rw [others v same] at known
        exact List.mem_cons_of_mem _ (queued.current v member c known)
    case stale =>
      intro c v member outside
      have differ : v ≠ w := fun same => outside (same ▸ open_)
      rw [others v differ]
      rcases List.mem_cons.mp member with same | old
      · exact absurd (Prod.mk.inj (toLex_inj.mp same)).2 differ
      · exact queued.stale c v old outside
  · rw [if_neg below, show relaxEdge u cost row w = row from if_neg below]
    exact ⟨queue, rfl, queued, Nat.le_succ _⟩

theorem foldl_lower (fits : base + row.size ≤ t.size) (inside : ∀ w ∈ found, w < row.size)
    (settled : ∀ v < row.size, v ∉ vs → AtMost cost (row.getD v {}).cost) (queued : Queued row vs queue) :
    ∃ more, found.foldl (Table.lower base u cost) (t.withRow base row, queue) =
        (t.withRow base (found.foldl (relaxEdge u cost) row), more) ∧
      Queued (found.foldl (relaxEdge u cost) row) vs more ∧ more.length ≤ queue.length + found.length := by
  induction found generalizing row queue with
  | nil => exact ⟨queue, rfl, queued, le_rfl⟩
  | cons w rest ih =>
    obtain ⟨here, others⟩ := List.forall_mem_cons.mp inside
    obtain ⟨middle, first, kept, one⟩ := queued.lower (u := u) fits here settled
    have cheap : ∀ v < (relaxEdge u cost row w).size, v ∉ vs →
        AtMost cost ((relaxEdge u cost row w).getD v {}).cost := by
      intro v bound outside
      rw [size_relaxEdge] at bound
      have old := settled v bound outside
      rwa [getD_relaxEdge_of_atMost old]
    obtain ⟨more, second, queued, several⟩ :=
      ih (by rwa [size_relaxEdge]) (by rwa [size_relaxEdge]) cheap kept
    refine ⟨more, ?_, queued, ?_⟩
    · rw [List.foldl_cons, first, second, List.foldl_cons]
    · rw [List.length_cons]
      omega

/-! ## Turns -/

/-- A turn drops an entry, or settles the cheapest open vertex. -/
theorem turn (queued : Queued row vs queue) (bounded : Hops.Bounded adjacency) (sizes : row.size = adjacency.size)
    (fits : base + row.size ≤ t.size) (settling : Settling adjacency before row vs)
    (ascending : vs.Pairwise (· < ·)) (waiting : queue ≠ []) : ∃ more,
      (Table.turn base adjacency (t.withRow base row, queue) = (t.withRow base row, more) ∧ Queued row vs more ∧
        more.length < queue.length) ∨
      ∃ u, cheapest? row vs = some u ∧
        Table.turn base adjacency (t.withRow base row, queue) = (t.withRow base (relaxFrom adjacency row u), more) ∧
        Queued (relaxFrom adjacency row u) (vs.erase u) more ∧
        more.length < queue.length + (adjacency.getD u []).length := by
  cases least : queue.min? with
  | none => exact absurd (List.min?_eq_none_iff.mp least) waiting
  | some entry =>
    obtain ⟨⟨d, u⟩, rfl⟩ : ∃ pair, entry = toLex pair := ⟨ofLex entry, rfl⟩
    obtain ⟨entered, -⟩ := List.min?_eq_some_iff.mp least
    have inside := (queued.known d u entered).1
    have fewer : (queue.erase (toLex (d, u))).length + 1 = queue.length := List.length_erase_add_one entered
    have unfolded : Table.turn base adjacency (t.withRow base row, queue) =
        if (row.getD u {}).cost.any (· < d) then (t.withRow base row, queue.erase (toLex (d, u)))
        else (adjacency.getD u []).foldl (Table.lower base u d) (t.withRow base row, queue.erase (toLex (d, u))) := by
      rw [Table.turn, least, ← Table.cell_withRow fits inside]
      rfl
    rcases queued.least_cases ascending least with ⟨c, less, known⟩ | ⟨chosen, known⟩
    · refine ⟨_, .inl ⟨?_, queued.drop ⟨c, less, known⟩, by omega⟩⟩
      rw [unfolded, known, if_pos (by simpa using less)]
    · have relaxed := relaxed_relaxFrom adjacency known
      have settled : ∀ v < row.size, v ∉ vs.erase u → AtMost d (row.getD v {}).cost :=
        fun v bound outside => (settling.fixed (cheapest?_eq_some chosen).1 known relaxed bound outside).2
      obtain ⟨more, lowered, kept, count⟩ := (queued.take (ascending.imp Nat.ne_of_lt) known).foldl_lower (u := u) fits
        (fun w neighbor => sizes ▸ bounded u w neighbor) settled
      have result : relaxFrom adjacency row u = (adjacency.getD u []).foldl (relaxEdge u d) row := by
        rw [relaxFrom, known]
      refine ⟨more, .inr ⟨u, chosen, ?_, result ▸ kept, by omega⟩⟩
      rw [unfolded, known, if_neg (by simp), lowered, result]

/-- The turns that are left: one for each entry, and one for each neighbour that an open vertex can still enter. -/
def turns (adjacency : Adjacency) (unsettled : List Nat) (queue : Queue) : Nat :=
  queue.length + (unsettled.map fun v => (adjacency.getD v []).length).sum

theorem settle_of_closed (closed : cheapest? row vs = none) (fuel : Nat) : settle adjacency fuel row vs = row := by
  cases fuel with
  | zero => rfl
  | succ fuel => rw [settle, closed]

/-- After all turns the row is settled and the queue is empty. -/
theorem run (bounded : Hops.Bounded adjacency) (left : Nat) :
    ∀ {row : Array Cell} {vs : List Nat} {queue : Queue} (fuel : Nat), row.size = adjacency.size →
      base + row.size ≤ t.size → Settling adjacency before row vs → vs.Pairwise (· < ·) → Queued row vs queue →
      vs.length ≤ fuel → turns adjacency vs queue ≤ left →
      (Table.turn base adjacency)^[left] (t.withRow base row, queue) =
        (t.withRow base (settle adjacency fuel row vs), []) := by
  induction left with
  | zero =>
    intro row vs queue fuel sizes fits settling ascending queued enough few
    obtain rfl : queue = [] := List.length_eq_zero_iff.mp (by rw [turns] at few; omega)
    rw [Function.iterate_zero, id, settle_of_closed queued.cheapest?_of_nil]
  | succ left ih =>
    intro row vs queue fuel sizes fits settling ascending queued enough few
    rw [Function.iterate_succ_apply]
    by_cases empty : queue = []
    · subst empty
      have unchanged : Table.turn base adjacency (t.withRow base row, []) = (t.withRow base row, []) := rfl
      rw [unchanged, Function.iterate_fixed unchanged, settle_of_closed queued.cheapest?_of_nil]
    obtain ⟨more, ⟨turned, kept, less⟩ | ⟨u, chosen, turned, kept, less⟩⟩ :=
      queued.turn bounded sizes fits settling ascending empty
    · rw [turned]
      apply ih fuel sizes fits settling ascending kept enough
      rw [turns] at few ⊢
      omega
    · have member := (cheapest?_eq_some chosen).1
      obtain ⟨fuel, rfl⟩ := Nat.exists_eq_succ_of_ne_zero (List.length_pos_of_mem member |>.trans_le enough).ne'
      have next := settling.next (ascending.imp Nat.ne_of_lt) chosen
      have same : (relaxFrom adjacency row u).size = row.size := next.size.trans settling.size.symm
      have length := List.length_erase_of_mem member
      have total := ((List.perm_cons_erase member).map fun v => (adjacency.getD v []).length).sum_nat
      rw [List.map_cons, List.sum_cons] at total
      rw [turned, SteinerTrees.settle, chosen]
      apply ih fuel (same.trans sizes) (same.symm ▸ fits) next (ascending.sublist List.erase_sublist) kept (by omega)
      rw [turns] at few ⊢
      omega

end Queued

/-- Relaxing a row with a queue, in place, comes to an end with the row as it is relaxed otherwise. -/
theorem Table.exists_turns (bounded : Hops.Bounded adjacency) (fits : base + adjacency.size ≤ t.size) :
    ∃ left, (turn base adjacency)^[left] (t, t.entries base adjacency.size) =
      (t.relax base adjacency.size adjacency, []) := by
  have size : (t.row base adjacency.size).size = adjacency.size := size_row t base adjacency.size
  have start := Settling.start adjacency (t.row base adjacency.size)
  rw [size] at start
  have within : base + (t.row base adjacency.size).size ≤ t.size := by rwa [size]
  have done := (Queued.start t base adjacency.size).run bounded _ adjacency.size size within start
    List.pairwise_lt_range (by rw [List.length_range]) le_rfl
  rw [withRow_row] at done
  exact ⟨_, by rw [done, Table.relax, relaxRow, size]⟩

end SteinerTrees
