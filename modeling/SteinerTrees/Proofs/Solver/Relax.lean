import SteinerTrees.Proofs.Solver.Rows
import SteinerTrees.Solver.Relax

/-! # Relaxed rows

Vertices are settled in the order of their costs, so a settled cell never changes again, and once a vertex is
settled its neighbours cost at most one more. A cell of a relaxed row is therefore either the cell it was or
one more than a settled neighbour, and no neighbour of a known cell is left dearer than that. -/

namespace SteinerTrees

variable {adjacency : Adjacency} {row before : Array Cell} {vs found : List Nat} {u v w : Nat} {cost c : Int}

/-! ## The cheapest vertex -/

/-- The cost of one vertex is known, and not above another's. -/
def NotDearer (row : Array Cell) (u v : Nat) : Prop :=
  ∀ c, (row.getD v {}).cost = some c → AtMost c (row.getD u {}).cost

theorem NotDearer.trans (first : NotDearer row u v) (second : NotDearer row v w) : NotDearer row u w := by
  intro c known
  obtain ⟨d, middle, le⟩ := second c known
  exact (first d middle).mono le

theorem NotDearer.refl (row : Array Cell) (u : Nat) : NotDearer row u u := fun c known => ⟨c, known, le_rfl⟩

/-- The cost of one vertex is known, and less than another's. -/
def Undercuts (row : Array Cell) (u v : Nat) : Prop :=
  ∀ c, (row.getD v {}).cost = some c → ∃ d < c, (row.getD u {}).cost = some d

theorem Undercuts.notDearer (undercuts : Undercuts row u v) : NotDearer row u v := by
  intro c known
  obtain ⟨d, less, best⟩ := undercuts c known
  exact ⟨d, best, less.le⟩

/-- What is not dearer than a vertex that undercuts another one undercuts it too. -/
theorem NotDearer.undercuts (first : NotDearer row u v) (second : Undercuts row v w) : Undercuts row u w := by
  intro c known
  obtain ⟨d, less, middle⟩ := second c known
  obtain ⟨e, best, le⟩ := first d middle
  exact ⟨e, by omega, best⟩

theorem Undercuts.of_notDearer (first : Undercuts row u v) (second : NotDearer row v w) : Undercuts row u w := by
  intro c known
  obtain ⟨d, middle, le⟩ := second c known
  obtain ⟨e, less, best⟩ := first d middle
  exact ⟨e, by omega, best⟩

/-- The second of two vertices is taken only if it undercuts the first. -/
theorem cheaper_cases (row : Array Cell) (u v : Nat) :
    (cheaper row u v = u ∧ NotDearer row u v) ∨ (cheaper row u v = v ∧ Undercuts row v u) := by
  unfold cheaper
  cases known : (row.getD v {}).cost with
  | none => exact .inl ⟨rfl, fun c other => by rw [known] at other; cases other⟩
  | some c =>
    simp only
    split_ifs with below
    · refine .inr ⟨rfl, fun d other => ⟨c, ?_, known⟩⟩
      rwa [costBelow_iff, other, atMost_some_iff, not_le] at below
    · rw [costBelow_iff, not_not] at below
      refine .inl ⟨rfl, fun d other => ?_⟩
      rw [known] at other
      cases other
      exact below

theorem cheaper_spec (row : Array Cell) (u v : Nat) :
    (cheaper row u v = u ∨ cheaper row u v = v) ∧ NotDearer row (cheaper row u v) u ∧
    NotDearer row (cheaper row u v) v := by
  rcases cheaper_cases row u v with ⟨same, notDearer⟩ | ⟨same, undercuts⟩
  · rw [same]
    exact ⟨.inl rfl, .refl row u, notDearer⟩
  · rw [same]
    exact ⟨.inr rfl, undercuts.notDearer, .refl row v⟩

theorem foldl_cheaper_spec (row : Array Cell) (vs : List Nat) : ∀ u : Nat,
    vs.foldl (cheaper row) u ∈ u :: vs ∧ ∀ v ∈ u :: vs, NotDearer row (vs.foldl (cheaper row) u) v := by
  induction vs with
  | nil =>
    intro u
    refine ⟨List.mem_cons_self, ?_⟩
    intro v member
    rw [List.mem_singleton.mp member]
    exact .refl row u
  | cons w rest ih =>
    intro u
    obtain ⟨which, first, second⟩ := cheaper_spec row u w
    obtain ⟨member, least⟩ := ih (cheaper row u w)
    rw [List.foldl_cons]
    have best := least _ List.mem_cons_self
    constructor
    · rcases List.mem_cons.mp member with same | member
      · rcases which with first | second
        · rw [same, first]
          exact List.mem_cons_self
        · rw [same, second]
          exact List.mem_cons_of_mem u List.mem_cons_self
      · exact List.mem_cons_of_mem u (List.mem_cons_of_mem w member)
    · intro v among
      rcases List.mem_cons.mp among with rfl | among
      · exact best.trans first
      · rcases List.mem_cons.mp among with rfl | among
        · exact best.trans second
        · exact least v (List.mem_cons_of_mem _ among)

theorem cheapest?_eq_none (none_left : cheapest? row vs = none) (member : v ∈ vs) :
    (row.getD v {}).cost = none := by
  cases vs with
  | nil => cases member
  | cons first rest =>
    obtain ⟨-, least⟩ := foldl_cheaper_spec row rest first
    cases known : (row.getD v {}).cost with
    | none => rfl
    | some c =>
      obtain ⟨d, best, -⟩ := least v member c known
      rw [cheapest?, best] at none_left
      cases none_left

theorem cheapest?_eq_some (chosen : cheapest? row vs = some u) :
    u ∈ vs ∧ ∃ c, (row.getD u {}).cost = some c ∧ ∀ v ∈ vs, NotDearer row u v := by
  cases vs with
  | nil => cases chosen
  | cons first rest =>
    obtain ⟨member, least⟩ := foldl_cheaper_spec row rest first
    simp only [cheapest?] at chosen
    split_ifs at chosen with known
    cases chosen
    obtain ⟨c, known⟩ := Option.isSome_iff_exists.mp known
    exact ⟨member, c, known, least⟩

theorem foldl_cheaper_first (row : Array Cell) (vs : List Nat) : ∀ u : Nat, (u :: vs).Pairwise (· < ·) →
    ∀ v ∈ u :: vs, v < vs.foldl (cheaper row) u → Undercuts row (vs.foldl (cheaper row) u) v := by
  induction vs with
  | nil =>
    intro u _ v member earlier
    rw [List.mem_singleton.mp member] at earlier
    exact absurd earlier (lt_irrefl u)
  | cons w rest ih =>
    intro u ascending v member earlier
    obtain ⟨later, others⟩ := List.pairwise_cons.mp ascending
    rw [List.foldl_cons] at earlier ⊢
    rcases cheaper_cases row u w with ⟨same, notDearer⟩ | ⟨same, undercuts⟩
    · rw [same] at earlier ⊢
      have first := ih u (ascending.sublist ((List.sublist_cons_self w rest).cons_cons u))
      rcases List.mem_cons.mp member with rfl | member
      · exact first v List.mem_cons_self earlier
      rcases List.mem_cons.mp member with rfl | member
      · have before := later v List.mem_cons_self
        exact (first u List.mem_cons_self (before.trans earlier)).of_notDearer notDearer
      · exact first v (List.mem_cons_of_mem u member) earlier
    · rw [same] at earlier ⊢
      rcases List.mem_cons.mp member with rfl | member
      · exact ((foldl_cheaper_spec row rest w).2 w List.mem_cons_self).undercuts undercuts
      · exact ih w others v member earlier

/-- Among vertices in ascending order, the first of those of least cost is chosen. -/
theorem cheapest?_first (ascending : vs.Pairwise (· < ·)) (chosen : cheapest? row vs = some u) :
    ∀ v ∈ vs, v < u → Undercuts row u v := by
  cases vs with
  | nil => cases chosen
  | cons first rest =>
    simp only [cheapest?] at chosen
    split_ifs at chosen with known
    cases chosen
    exact foldl_cheaper_first row rest first ascending

/-! ## One vertex -/

theorem getD_relaxEdge (u : Nat) (cost : Int) (row : Array Cell) (w v : Nat) :
    (relaxEdge u cost row w).getD v {} =
      if w = v ∧ w < row.size ∧ costBelow (cost + 1) (row.getD w {}).cost = true
      then ⟨some (cost + 1), .move, u⟩ else row.getD v {} := by
  unfold relaxEdge
  by_cases below : costBelow (cost + 1) (row.getD w {}).cost = true
  · rw [if_pos below, getD_set]
    simp only [below, and_true]
  · rw [if_neg below, if_neg fun all => below all.2.2]

@[simp] theorem size_relaxEdge (u : Nat) (cost : Int) (row : Array Cell) (w : Nat) :
    (relaxEdge u cost row w).size = row.size := by
  unfold relaxEdge
  split_ifs
  · rw [Array.set!_eq_setIfInBounds, Array.size_setIfInBounds]
  · rfl

/-- What relaxing from `u`, whose cost is given, does to the cell of `v`: keep it, or set it to one more. -/
def Relaxed (u : Nat) (cost : Int) (found : List Nat) (row after : Array Cell) : Prop :=
  after.size = row.size ∧ (∀ v, after.getD v {} = row.getD v {} ∨
    (v ∈ found ∧ v < row.size ∧ ¬ AtMost (cost + 1) (row.getD v {}).cost ∧
      after.getD v {} = ⟨some (cost + 1), .move, u⟩)) ∧
  ∀ v ∈ found, v < row.size → AtMost (cost + 1) (after.getD v {}).cost

theorem relaxed_foldl (u : Nat) (cost : Int) (found : List Nat) :
    ∀ row : Array Cell, Relaxed u cost found row (found.foldl (relaxEdge u cost) row) := by
  induction found with
  | nil => exact fun row => ⟨rfl, fun _ => .inl rfl, fun _ member => absurd member List.not_mem_nil⟩
  | cons w rest ih =>
    intro row
    obtain ⟨size, cells, reached⟩ := ih (relaxEdge u cost row w)
    rw [size_relaxEdge] at size cells reached
    rw [List.foldl_cons]
    refine ⟨size, ?_, ?_⟩
    · intro v
      have first := getD_relaxEdge u cost row w v
      split_ifs at first with changed
      · obtain ⟨rfl, inside, below⟩ := changed
        refine .inr ⟨List.mem_cons_self, inside, costBelow_iff.mp below, ?_⟩
        rcases cells w with same | ⟨-, -, again, -⟩
        · rw [same, first]
        · exact absurd (by rw [first]; exact atMost_some_iff.mpr le_rfl) again
      · rcases cells v with same | ⟨member, inside, dearer, set⟩
        · exact .inl (same.trans first)
        · exact .inr ⟨List.mem_cons_of_mem w member, inside, first ▸ dearer, set⟩
    · intro v member inside
      rcases List.mem_cons.mp member with rfl | member
      · have now : AtMost (cost + 1) ((relaxEdge u cost row v).getD v {}).cost := by
          rw [getD_relaxEdge]
          by_cases changed : v = v ∧ v < row.size ∧ costBelow (cost + 1) (row.getD v {}).cost = true
          · rw [if_pos changed]
            exact atMost_some_iff.mpr le_rfl
          · rw [if_neg changed]
            exact not_not.mp fun dearer => changed ⟨rfl, inside, costBelow_iff.mpr dearer⟩
        rcases cells v with same | ⟨-, -, -, set⟩
        · rwa [same]
        · rw [set]
          exact atMost_some_iff.mpr le_rfl
      · exact reached v member inside

theorem relaxed_relaxFrom (adjacency : Adjacency) (known : (row.getD u {}).cost = some c) :
    Relaxed u c (adjacency.getD u []) row (relaxFrom adjacency row u) := by
  rw [relaxFrom, known]
  exact relaxed_foldl u c _ row

theorem Relaxed.lowered {found : List Nat} {after : Array Cell} (relaxed : Relaxed u c found row after)
    {v : Nat} {bound : Int} (atMost : AtMost bound (row.getD v {}).cost) : AtMost bound (after.getD v {}).cost := by
  rcases relaxed.2.1 v with same | ⟨-, -, dearer, set⟩
  · rwa [same]
  · rw [set, atMost_some_iff]
    by_contra above
    exact dearer (atMost.mono (by omega))

theorem lt_size_of_known (known : (row.getD u {}).cost = some c) : u < row.size := by
  by_contra beyond
  rw [Array.getD_eq_getD_getElem?, Array.getElem?_eq_none (by omega)] at known
  cases known

/-! ## All vertices -/

/-- What holds while vertices are settled. `before` is the row at the start. -/
structure Settling (adjacency : Adjacency) (before row : Array Cell) (unsettled : List Nat) : Prop where
  size : row.size = before.size
  ordered : ∀ u < row.size, u ∉ unsettled → ∀ v ∈ unsettled, NotDearer row u v
  closed : ∀ u < row.size, u ∉ unsettled → ∀ c, (row.getD u {}).cost = some c →
    ∀ v ∈ adjacency.getD u [], v < row.size → AtMost (c + 1) (row.getD v {}).cost
  origin : ∀ v < row.size, row.getD v {} = before.getD v {} ∨ ∃ u c, u < row.size ∧ u ∉ unsettled ∧
    v ∈ adjacency.getD u [] ∧
    (row.getD u {}).cost = some c ∧ row.getD v {} = ⟨some (c + 1), .move, u⟩ ∧
      ¬ AtMost (c + 1) (before.getD v {}).cost
  cheapened : ∀ v < row.size, ∀ bound, AtMost bound (before.getD v {}).cost →
    AtMost bound (row.getD v {}).cost
  floor : ∀ bound, (∀ v < row.size, ∀ c, (before.getD v {}).cost = some c → bound ≤ c) →
    ∀ v < row.size, ∀ c, (row.getD v {}).cost = some c → bound ≤ c

theorem Settling.start (adjacency : Adjacency) (row : Array Cell) :
    Settling adjacency row row (List.range row.size) where
  size := rfl
  ordered _ inside outside := absurd (List.mem_range.mpr inside) outside
  closed _ inside outside := absurd (List.mem_range.mpr inside) outside
  origin _ _ := .inl rfl
  cheapened _ _ _ known := known
  floor _ bounded := bounded

/-- A settled cell, or that of the vertex that is settled next, costs at most as much as the latter and so is kept
when its neighbours are relaxed. -/
theorem Settling.fixed {after : Array Cell} {d : Int} {v : Nat} (settling : Settling adjacency before row vs)
    (member : u ∈ vs) (known : (row.getD u {}).cost = some d)
    (relaxed : Relaxed u d (adjacency.getD u []) row after) (inside : v < row.size) (outside : v ∉ vs.erase u) :
    after.getD v {} = row.getD v {} ∧ AtMost d (row.getD v {}).cost := by
  have cheap : AtMost d (row.getD v {}).cost := by
    by_cases same : v = u
    · exact ⟨d, same ▸ known, le_rfl⟩
    · apply settling.ordered v inside _ u member d known
      exact fun open_ => outside ((List.mem_erase_of_ne same).mpr open_)
  refine ⟨(relaxed.2.1 v).resolve_right ?_, cheap⟩
  rintro ⟨-, -, dearer, -⟩
  exact dearer (cheap.mono (by omega))

/-- Settling a cheapest vertex keeps what holds while vertices are settled. -/
theorem Settling.next (settling : Settling adjacency before row vs) (distinct : vs.Nodup)
    (chosen : cheapest? row vs = some u) :
    Settling adjacency before (relaxFrom adjacency row u) (vs.erase u) := by
  obtain ⟨member, d, known, least⟩ := cheapest?_eq_some chosen
  have relaxed := relaxed_relaxFrom adjacency known
  generalize relaxFrom adjacency row u = after at relaxed ⊢
  have fixed : ∀ v < row.size, v ∉ vs.erase u →
      after.getD v {} = row.getD v {} ∧ AtMost d (row.getD v {}).cost :=
    fun v => settling.fixed member known relaxed
  have ⟨size, cells, reached⟩ := relaxed
  constructor
  case size => rw [size, settling.size]
  case ordered =>
    intro x inside outside v open_ c cost
    rw [size] at inside
    obtain ⟨same, cheap⟩ := fixed x inside outside
    rw [same]
    rcases cells v with kept | ⟨-, -, -, set⟩
    · rw [kept] at cost
      obtain ⟨e, other, le⟩ := least v (List.mem_of_mem_erase open_) c cost
      rw [known] at other
      cases other
      exact cheap.mono le
    · rw [set] at cost
      cases cost
      exact cheap.mono (by omega)
  case closed =>
    intro x inside outside c cost v neighbor below
    rw [size] at inside below
    rw [(fixed x inside outside).1] at cost
    by_cases same : x = u
    · rw [same] at cost neighbor
      cases known.symm.trans cost
      exact reached v neighbor below
    · have old : x ∉ vs := fun open_ => outside ((List.mem_erase_of_ne same).mpr open_)
      exact relaxed.lowered (settling.closed x inside old c cost v neighbor below)
  case origin =>
    intro v inside
    rw [size] at inside
    have gone : u ∉ vs.erase u := fun again => (distinct.mem_erase_iff.mp again).1 rfl
    rcases cells v with kept | ⟨neighbor, -, dearer, set⟩
    · rcases settling.origin v inside with same | ⟨x, c, below, outside, neighbor, cost, moved, dearer⟩
      · exact .inl (kept.trans same)
      · have outside : x ∉ vs.erase u := fun again => outside (List.mem_of_mem_erase again)
        exact .inr ⟨x, c, size ▸ below, outside, neighbor, by rw [(fixed x below outside).1, cost],
          kept.trans moved, dearer⟩
    · have inner := lt_size_of_known known
      exact .inr ⟨u, d, size ▸ inner, gone, neighbor, by rw [(fixed u inner gone).1, known], set,
        fun cheap => dearer (settling.cheapened v inside _ cheap)⟩
  case cheapened =>
    intro v inside bound cheap
    exact relaxed.lowered (settling.cheapened v (size ▸ inside) bound cheap)
  case floor =>
    intro bound bounded v inside c cost
    rw [size] at inside bounded
    have old := settling.floor bound bounded
    rcases cells v with kept | ⟨-, -, -, set⟩
    · exact old v inside c (kept ▸ cost)
    · rw [set] at cost
      cases cost
      have enough := old u (lt_size_of_known known) d known
      omega

/-- What settling a cheapest vertex keeps is kept until, after a unit of fuel for each open vertex, only vertices
without a cost are open. -/
theorem settle_keeps (kept : Array Cell → List Nat → Prop) (next : ∀ row vs u, kept row vs →
    cheapest? row vs = some u → kept (relaxFrom adjacency row u) (vs.erase u)) (fuel : Nat) :
    ∀ {row : Array Cell} {vs : List Nat}, kept row vs → vs.length ≤ fuel →
      ∃ rest, kept (settle adjacency fuel row vs) rest ∧
        ∀ v ∈ rest, ((settle adjacency fuel row vs).getD v {}).cost = none := by
  induction fuel with
  | zero =>
    intro row vs start enough
    have closed : vs = [] := List.eq_nil_of_length_eq_zero (by omega)
    exact ⟨vs, start, fun v member => absurd (closed ▸ member) List.not_mem_nil⟩
  | succ fuel ih =>
    intro row vs start enough
    rw [settle]
    cases chosen : cheapest? row vs with
    | none => exact ⟨vs, start, fun v member => cheapest?_eq_none chosen member⟩
    | some u =>
      have member := (cheapest?_eq_some chosen).1
      apply ih (next row vs u start chosen)
      rw [List.length_erase_of_mem member]
      omega

/-- A relaxed row: closed under neighbours, each cell as it was or one more than a neighbour, and no cost
raised. -/
structure IsRelaxed (adjacency : Adjacency) (before row : Array Cell) : Prop where
  size : row.size = before.size
  closed : ∀ u < row.size, ∀ c, (row.getD u {}).cost = some c →
    ∀ v ∈ adjacency.getD u [], v < row.size → AtMost (c + 1) (row.getD v {}).cost
  origin : ∀ v < row.size, row.getD v {} = before.getD v {} ∨ ∃ u c, u < row.size ∧ v ∈ adjacency.getD u [] ∧
    (row.getD u {}).cost = some c ∧ row.getD v {} = ⟨some (c + 1), .move, u⟩ ∧
      ¬ AtMost (c + 1) (before.getD v {}).cost
  cheapened : ∀ v < row.size, ∀ bound, AtMost bound (before.getD v {}).cost →
    AtMost bound (row.getD v {}).cost
  floor : ∀ bound, (∀ v < row.size, ∀ c, (before.getD v {}).cost = some c → bound ≤ c) →
    ∀ v < row.size, ∀ c, (row.getD v {}).cost = some c → bound ≤ c

theorem isRelaxed_relaxRow (adjacency : Adjacency) (row : Array Cell) :
    IsRelaxed adjacency row (relaxRow adjacency row) := by
  obtain ⟨rest, ⟨settling, -⟩, unknown⟩ := settle_keeps
    (fun after vs => Settling adjacency row after vs ∧ vs.Nodup)
    (fun _ _ u ⟨settling, distinct⟩ chosen => ⟨settling.next distinct chosen, distinct.erase u⟩) row.size
    ⟨Settling.start adjacency row, List.nodup_range⟩ (by rw [List.length_range])
  refine ⟨settling.size, ?_, ?_, settling.cheapened, settling.floor⟩
  · intro u inside c cost
    refine settling.closed u inside ?_ c cost
    intro open_
    rw [relaxRow, unknown u open_] at cost
    cases cost
  · intro v inside
    rcases settling.origin v inside with same | ⟨u, c, below, -, moved⟩
    · exact .inl same
    · exact .inr ⟨u, c, below, moved⟩

end SteinerTrees
