import SteinerTrees.Proofs.Graph.WellFormed
import SteinerTrees.Proofs.Solver.Merge
import SteinerTrees.Solver.Solve

/-! # Filled tables

Sets are merged in ascending order, so the rows of all parts of a set are final when its own row is merged.
In a filled table every cell is justified by what its mark says, and no part of a set and, if rows are
relaxed, no neighbour offers less. -/

namespace SteinerTrees

variable {relaxation : Bool} {adjacency : Adjacency} {terminals : List Nat} {t after : Table}
  {bound mask sub m i u v w terminal : Nat} {cell : Cell}

/-- A cell says how its tree is put together, and the cost is that of the tree. -/
inductive Justified (relaxation : Bool) (adjacency : Adjacency) (terminals : List Nat) (t : Table)
    (mask v : Nat) : Cell → Prop
  | unset : Justified relaxation adjacency terminals t mask v {}
  | direct {i terminal : Nat} {visit : Hops.Visit} : mask = 2 ^ i → terminals[i]? = some terminal →
      Hops.visit? (Hops.explore adjacency terminal) v = some visit →
      Justified relaxation adjacency terminals t mask v ⟨some visit.hops, .direct, terminal⟩
  | merge {sub : Nat} {a b : Int} : IsPart mask sub → t.Splits adjacency.size mask v sub a b →
      Justified relaxation adjacency terminals t mask v ⟨some (a + b), .merge, sub⟩
  | move {u : Nat} {c : Int} : relaxation = true → u < adjacency.size → v ∈ adjacency.getD u [] →
      (t.entry adjacency.size mask u).cost = some c →
      Justified relaxation adjacency terminals t mask v ⟨some (c + 1), .move, u⟩

/-- A cell stays justified in a table with the same parts and the same row. -/
theorem Justified.congr (justified : Justified relaxation adjacency terminals t mask v cell)
    (parts : ∀ sub, IsPart mask sub → ∀ a b, t.Splits adjacency.size mask v sub a b →
    after.Splits adjacency.size mask v sub a b)
    (row : ∀ u < adjacency.size, after.entry adjacency.size mask u = t.entry adjacency.size mask u) :
    Justified relaxation adjacency terminals after mask v cell := by
  cases justified with
  | unset => exact .unset
  | direct single found reached => exact .direct single found reached
  | merge part splits => exact .merge part (parts _ part _ _ splits)
  | move asked inside neighbor known => exact .move asked inside neighbor (by rw [row _ inside, known])

namespace Table

/-- What holds of a table when all sets below a bound have been merged. -/
structure FilledTo (relaxation : Bool) (adjacency : Adjacency) (terminals : List Nat) (bound : Nat)
    (t : Table) : Prop where
  size : t.size = 2 ^ terminals.length * adjacency.size
  zero : ∀ v < adjacency.size, t.entry adjacency.size 0 v = {}
  seeds : ∀ i terminal, terminals[i]? = some terminal → ∀ v < adjacency.size,
    t.entry adjacency.size (2 ^ i) v = (seedRow adjacency terminal).getD v {}
  pending : ∀ mask, bound ≤ mask → isSingle mask ≠ true →
    ∀ v < adjacency.size, t.entry adjacency.size mask v = {}
  justified : ∀ mask < bound, ∀ v < adjacency.size,
    Justified relaxation adjacency terminals t mask v (t.entry adjacency.size mask v)
  nonneg : ∀ mask < bound, ∀ v < adjacency.size, ∀ c, (t.entry adjacency.size mask v).cost = some c → 0 ≤ c
  merged : ∀ mask < bound, ∀ v < adjacency.size, ∀ sub, IsPart mask sub →
    ∀ a b, t.Splits adjacency.size mask v sub a b →
    AtMost (a + b) (t.entry adjacency.size mask v).cost
  moved : relaxation = true → ∀ mask < bound, isSingle mask ≠ true → ∀ u < adjacency.size, ∀ c,
    (t.entry adjacency.size mask u).cost = some c → ∀ w ∈ adjacency.getD u [], w < adjacency.size →
      AtMost (c + 1) (t.entry adjacency.size mask w).cost

/-- What holds of the row of a set that has been merged. -/
structure RowFilled (relaxation : Bool) (adjacency : Adjacency) (terminals : List Nat) (t : Table)
    (mask : Nat) : Prop where
  justified : ∀ v < adjacency.size,
    Justified relaxation adjacency terminals t mask v (t.entry adjacency.size mask v)
  nonneg : ∀ v < adjacency.size, ∀ c, (t.entry adjacency.size mask v).cost = some c → 0 ≤ c
  merged : ∀ v < adjacency.size, ∀ sub, IsPart mask sub → ∀ a b, t.Splits adjacency.size mask v sub a b →
    AtMost (a + b) (t.entry adjacency.size mask v).cost
  moved : relaxation = true → isSingle mask ≠ true → ∀ u < adjacency.size, ∀ c,
    (t.entry adjacency.size mask u).cost = some c → ∀ w ∈ adjacency.getD u [], w < adjacency.size →
      AtMost (c + 1) (t.entry adjacency.size mask w).cost

theorem filledTo_zero (relaxation : Bool) (adjacency : Adjacency) (terminals : List Nat) :
    (seeded adjacency terminals).FilledTo relaxation adjacency terminals 0 where
  size := size_seeded
  zero v inside := entry_seeded_of_ne inside fun j _ => Nat.ne_of_lt (Nat.two_pow_pos j)
  seeds i terminal found v inside := entry_seeded inside found
  pending mask _ several v inside := by
    apply entry_seeded_of_ne inside
    rintro j _ rfl
    exact several (isSingle_two_pow j)
  justified mask below := absurd below (Nat.not_lt_zero mask)
  nonneg mask below := absurd below (Nat.not_lt_zero mask)
  merged mask below := absurd below (Nat.not_lt_zero mask)
  moved _ mask below := absurd below (Nat.not_lt_zero mask)

/-! ## One set -/

theorem splits_congr (first : after.entry adjacency.size sub v = t.entry adjacency.size sub v)
    (second : after.entry adjacency.size (mask ^^^ sub) v = t.entry adjacency.size (mask ^^^ sub) v)
    (a b : Int) :
    after.Splits adjacency.size mask v sub a b ↔ t.Splits adjacency.size mask v sub a b := by
  rw [Splits, Splits, first, second]

theorem justified_seed (found : terminals[i]? = some terminal) (inside : v < adjacency.size) :
    Justified relaxation adjacency terminals t (2 ^ i) v ((seedRow adjacency terminal).getD v {}) := by
  rw [getD_seedRow inside]
  cases reached : Hops.visit? (Hops.explore adjacency terminal) v with
  | none => exact .unset
  | some visit => exact .direct rfl found reached

/-- A row stays filled in a table with the same rows up to this one. -/
theorem RowFilled.congr (row : t.RowFilled relaxation adjacency terminals mask)
    (same : ∀ other ≤ mask, ∀ v < adjacency.size,
      after.entry adjacency.size other v = t.entry adjacency.size other v) :
    after.RowFilled relaxation adjacency terminals mask := by
  have own := same mask le_rfl
  have parts : ∀ v < adjacency.size, ∀ sub, IsPart mask sub → ∀ a b,
      after.Splits adjacency.size mask v sub a b ↔ t.Splits adjacency.size mask v sub a b :=
    fun v inside sub part => splits_congr (same _ part.lt.le v inside) (same _ part.rest.lt.le v inside)
  constructor
  case justified =>
    intro v inside
    rw [own v inside]
    exact (row.justified v inside).congr (fun sub part a b => (parts v inside sub part a b).mpr) own
  case nonneg =>
    intro v inside c known
    rw [own v inside] at known
    exact row.nonneg v inside c known
  case merged =>
    intro v inside sub part a b splits
    rw [own v inside]
    exact row.merged v inside sub part a b ((parts v inside sub part a b).mp splits)
  case moved =>
    intro asked several u inside c known w neighbor inner
    rw [own u inside] at known
    rw [own w inner]
    exact row.moved asked several u inside c known w neighbor inner

namespace FilledTo

theorem row (filled : t.FilledTo relaxation adjacency terminals m) (below : mask < m) :
    t.RowFilled relaxation adjacency terminals mask where
  justified := filled.justified mask below
  nonneg := filled.nonneg mask below
  merged := filled.merged mask below
  moved asked := filled.moved asked mask below

/-- A table with one more filled row, and all other rows as they were. -/
theorem extend (filled : t.FilledTo relaxation adjacency terminals m) (size : after.size = t.size)
    (others : ∀ mask, mask ≠ m → ∀ v < adjacency.size,
      after.entry adjacency.size mask v = t.entry adjacency.size mask v)
    (seeds : isSingle m = true → ∀ v < adjacency.size, after.entry adjacency.size m v = t.entry adjacency.size m v)
    (row : after.RowFilled relaxation adjacency terminals m) :
    after.FilledTo relaxation adjacency terminals (m + 1) := by
  have kept : ∀ mask, isSingle mask = true → ∀ v < adjacency.size,
      after.entry adjacency.size mask v = t.entry adjacency.size mask v := by
    intro mask single
    by_cases same : mask = m
    · exact same ▸ seeds (same ▸ single)
    · exact others mask same
  have rows : ∀ mask < m + 1, after.RowFilled relaxation adjacency terminals mask := by
    intro mask upto
    rcases Nat.lt_succ_iff_lt_or_eq.mp upto with earlier | rfl
    · exact (filled.row earlier).congr fun other le => others other (by omega)
    · exact row
  constructor
  case size => rw [size, filled.size]
  case zero =>
    intro v inside
    rw [kept 0 rfl v inside, filled.zero v inside]
  case seeds =>
    intro i terminal found v inside
    rw [kept _ (isSingle_two_pow i) v inside, filled.seeds i terminal found v inside]
  case pending =>
    intro mask above single v inside
    rw [others mask (by omega) v inside, filled.pending mask (by omega) single v inside]
  case justified => exact fun mask upto => (rows mask upto).justified
  case nonneg => exact fun mask upto => (rows mask upto).nonneg
  case merged => exact fun mask upto => (rows mask upto).merged
  case moved => exact fun asked mask upto => (rows mask upto).moved asked

/-- The row of a set with at most one member is filled from the start. -/
theorem rowFilled_of_isSingle (filled : t.FilledTo relaxation adjacency terminals m)
    (below : m < 2 ^ terminals.length) (single : isSingle m = true) :
    t.RowFilled relaxation adjacency terminals m := by
  -- The cells of such a set are the seeds of its member, or empty.
  have cells : (∀ v < adjacency.size, t.entry adjacency.size m v = {}) ∨ ∃ i terminal, m = 2 ^ i ∧
      terminals[i]? = some terminal ∧
        ∀ v < adjacency.size, t.entry adjacency.size m v = (seedRow adjacency terminal).getD v {} := by
    by_cases nonempty : m = 0
    · exact .inl fun v inside => by rw [nonempty, filled.zero v inside]
    · obtain ⟨i, rfl⟩ := exists_eq_two_pow single nonempty
      have listed : i < terminals.length := (Nat.pow_lt_pow_iff_right (by omega)).mp below
      exact .inr ⟨i, terminals[i], rfl, List.getElem?_eq_getElem listed,
        filled.seeds i _ (List.getElem?_eq_getElem listed)⟩
  constructor
  case justified =>
    intro v inside
    rcases cells with empty | ⟨i, terminal, rfl, found, seeds⟩
    · rw [empty v inside]
      exact .unset
    · rw [seeds v inside]
      exact justified_seed found inside
  case nonneg =>
    intro v inside c known
    rcases cells with empty | ⟨i, terminal, rfl, found, seeds⟩
    · rw [empty v inside] at known
      cases known
    · rw [seeds v inside, getD_seedRow inside] at known
      cases reached : Hops.visit? (Hops.explore adjacency terminal) v with
      | none =>
        rw [reached] at known
        cases known
      | some visit =>
        rw [reached] at known
        cases known
        exact Int.natCast_nonneg _
  case merged => exact fun v _ sub part => absurd part (isSingle_iff.mp single sub)
  case moved => exact fun _ several => absurd single several

/-- The row of a set is filled when it has been merged. -/
theorem rowFilled_mergeRow (filled : t.FilledTo relaxation adjacency terminals m)
    (below : m < 2 ^ terminals.length) (several : isSingle m ≠ true) :
    (mergeRow relaxation adjacency.size adjacency t m).RowFilled relaxation adjacency terminals m := by
  obtain ⟨row, isRow, written⟩ := isMergedRow_mergeRow relaxation adjacency filled.size below several
    (filled.pending m le_rfl several)
  -- The parts of the set have rows that stay.
  have parts : ∀ v < adjacency.size, ∀ sub, IsPart m sub → ∀ a b,
      (mergeRow relaxation adjacency.size adjacency t m).Splits adjacency.size m v sub a b ↔
        t.Splits adjacency.size m v sub a b := by
    intro v inside sub part
    exact splits_congr (entry_mergeRow_of_ne relaxation filled.size below inside part.proper)
      (entry_mergeRow_of_ne relaxation filled.size below inside part.rest.proper)
  generalize mergeRow relaxation adjacency.size adjacency t m = after at written parts ⊢
  constructor
  case justified =>
    intro v inside
    rw [written v inside]
    rcases isRow.origin v inside with
      empty | ⟨sub, a, b, part, splits, taken⟩ | ⟨asked, u, c, inner, neighbor, known, taken⟩
    · rw [empty]
      exact .unset
    · rw [taken]
      exact .merge part ((parts v inside sub part a b).mpr splits)
    · rw [taken]
      exact .move asked inner neighbor (by rw [written u inner, known])
  case nonneg =>
    intro v inside c known
    rw [written v inside] at known
    exact isRow.nonneg (fun w inner sub part => filled.nonneg sub part.lt w inner) v inside c known
  case merged =>
    intro v inside sub part a b splits
    rw [written v inside]
    exact isRow.least v inside sub part a b ((parts v inside sub part a b).mp splits)
  case moved =>
    intro asked _ u inside c known w neighbor inner
    rw [written u inside] at known
    rw [written w inner]
    exact isRow.closed asked u inside c known w neighbor inner

/-- One step of filling a table. -/
theorem mergeRow (filled : t.FilledTo relaxation adjacency terminals m) (below : m < 2 ^ terminals.length) :
    (mergeRow relaxation adjacency.size adjacency t m).FilledTo relaxation adjacency terminals (m + 1) := by
  by_cases one : isSingle m = true
  · rw [mergeRow_of_isSingle relaxation adjacency t one]
    exact filled.extend rfl (fun _ _ _ _ => rfl) (fun _ _ _ => rfl) (filled.rowFilled_of_isSingle below one)
  · exact filled.extend (size_mergeRow relaxation adjacency t m)
      (fun mask differ v inside => entry_mergeRow_of_ne relaxation filled.size below inside differ)
      (fun single => absurd single one) (filled.rowFilled_mergeRow below one)

end FilledTo

/-- All steps of filling a table. -/
theorem filledTo_foldl (relaxation : Bool) (adjacency : Adjacency) (terminals : List Nat) :
    ∀ bound ≤ 2 ^ terminals.length,
      ((List.range bound).foldl (mergeRow relaxation adjacency.size adjacency)
        (seeded adjacency terminals)).FilledTo relaxation adjacency terminals bound := by
  intro bound
  induction bound with
  | zero => exact fun _ => filledTo_zero relaxation adjacency terminals
  | succ bound ih =>
    intro upto
    rw [List.range_succ, List.foldl_append, List.foldl_cons, List.foldl_nil]
    exact (ih (by omega)).mergeRow (by omega)

/-- A table in which all sets have been merged. -/
abbrev Filled (relaxation : Bool) (adjacency : Adjacency) (terminals : List Nat) (t : Table) : Prop :=
  t.FilledTo relaxation adjacency terminals (2 ^ terminals.length)

/-- Induction over known costs: parts are smaller sets, and a move, which stays in the row, lowers the cost. -/
theorem FilledTo.induction {P : Nat → Nat → Int → Prop} (filled : t.Filled relaxation adjacency terminals)
    (direct : ∀ i terminal v visit, terminals[i]? = some terminal → v < adjacency.size →
      Hops.visit? (Hops.explore adjacency terminal) v = some visit →
      t.entry adjacency.size (2 ^ i) v = ⟨some visit.hops, .direct, terminal⟩ → P (2 ^ i) v visit.hops)
    (merge : ∀ mask sub v a b, mask < 2 ^ terminals.length → v < adjacency.size → IsPart mask sub →
      t.entry adjacency.size mask v = ⟨some (a + b), .merge, sub⟩ → P sub v a → P (mask ^^^ sub) v b →
      P mask v (a + b))
    (move : ∀ mask u v c, mask < 2 ^ terminals.length → u < adjacency.size → v < adjacency.size →
      v ∈ adjacency.getD u [] → t.entry adjacency.size mask v = ⟨some (c + 1), .move, u⟩ →
      (t.entry adjacency.size mask u).cost = some c → P mask u c → P mask v (c + 1))
    (below : mask < 2 ^ terminals.length) (inside : v < adjacency.size) {c : Int}
    (known : (t.entry adjacency.size mask v).cost = some c) : P mask v c := by
  induction mask using Nat.strongRecOn generalizing v c with
  | _ mask parts =>
    obtain ⟨k, rfl⟩ := Int.eq_ofNat_of_zero_le (filled.nonneg mask below v inside c known)
    induction k using Nat.strongRecOn generalizing v with
    | _ k cheaper =>
      have justified := filled.justified mask below v inside
      generalize taken : t.entry adjacency.size mask v = cell at justified known
      cases justified with
      | unset => cases known
      | direct single found reached =>
        cases known
        rw [single] at taken ⊢
        exact direct _ _ v _ found inside reached taken
      | merge part splits =>
        obtain ⟨first, second⟩ := splits
        rw [← Option.some.inj known]
        exact merge mask _ v _ _ below inside part taken
          (parts _ part.lt (lt_trans part.lt below) inside first)
          (parts _ part.rest.lt (lt_trans part.rest.lt below) inside second)
      | @move u c asked inner neighbor before =>
        have nonneg := filled.nonneg mask below u inner c before
        obtain ⟨j, rfl⟩ := Int.eq_ofNat_of_zero_le nonneg
        have step := Option.some.inj known
        rw [← step]
        exact move mask u v _ below inner inside neighbor taken before (cheaper j (by omega) inner before)

end Table

theorem Graph.filled_costTable (g : Graph) (relaxation : Bool) (terminals : List Nat) :
    (g.costTable relaxation terminals).Filled relaxation g.adjacency terminals := by
  rw [Graph.costTable, ← g.adjacency_size]
  exact Table.filledTo_foldl relaxation g.adjacency terminals _ le_rfl

end SteinerTrees
