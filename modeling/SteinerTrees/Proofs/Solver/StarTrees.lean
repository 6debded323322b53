import SteinerTrees.Proofs.Graph.FirstPaths
import SteinerTrees.Proofs.Solver.Stars

/-! # Trees of stars

A tree that is read off without relaxed rows is the union of the paths from its terminals to its hub. Two of them that
meet never part again, since each goes on along the first shortest way from where they meet. So every vertex but the
hub has one edge that leads on, and there is no cycle. -/

namespace SteinerTrees

open Table

variable {g : Graph} {terminals : List Nat} {t : Table} {tree : Tree} {stack : List (Nat × Nat)}
  {path vertices : List Nat} {links : List Link} {steps : List (Option Link)} {mask sub terminal hub i u v : Nat}
  {c : Int} {property : List Nat → Prop}

/-! ## Paths of a set -/

/-- The path from a terminal of a set to a vertex has a property. -/
def SomePath (g : Graph) (terminals : List Nat) (mask v : Nat) (property : List Nat → Prop) : Prop :=
  ∃ terminal ∈ members terminals mask, ∃ path, g.path terminal v = .ok path ∧ property path

theorem not_somePath_zero : ¬ SomePath g terminals 0 v property := by
  rintro ⟨terminal, ⟨i, taken, -⟩, -⟩
  rw [Nat.zero_testBit] at taken
  cases taken

theorem somePath_two_pow_iff (found : terminals[i]? = some terminal) (traced : g.path terminal v = .ok path) :
    SomePath g terminals (2 ^ i) v property ↔ property path := by
  constructor
  · rintro ⟨other, member, way, same, holds⟩
    rw [mem_members_two_pow, found] at member
    cases member
    rw [traced] at same
    cases same
    exact holds
  · exact fun holds => ⟨terminal, mem_members_two_pow.mpr found, path, traced, holds⟩

theorem somePath_rest_iff (part : IsPart mask sub) : SomePath g terminals mask v property ↔
    SomePath g terminals sub v property ∨ SomePath g terminals (mask ^^^ sub) v property := by
  constructor
  · rintro ⟨terminal, member, rest⟩
    exact (mem_members_or_rest member sub).imp (⟨terminal, ·, rest⟩) (⟨terminal, ·, rest⟩)
  · rintro (⟨terminal, member, rest⟩ | ⟨terminal, member, rest⟩)
    · exact ⟨terminal, members_mono part.within member, rest⟩
    · exact ⟨terminal, members_mono part.rest.within member, rest⟩

/-! ## What is collected -/

theorem edgesOf_append (links more : List Link) : edgesOf (links ++ more) = edgesOf links ∪ edgesOf more := by
  rw [edgesOf, List.map_append, List.toFinset_append]
  rfl

/-- A path is walked along links that join its consecutive vertices. -/
theorem Graph.WellFormed.exists_stepsAlong (valid : g.WellFormed)
    (chain : path.IsChain fun u v => v ∈ g.adjacency.getD u []) :
    ∃ links : List Link, g.stepsAlong path = links.map some ∧ links.map Link.pair = Hops.pairsAlong path := by
  induction path with
  | nil => exact ⟨[], rfl, rfl⟩
  | cons u rest ih =>
    cases rest with
    | nil => exact ⟨[], rfl, rfl⟩
    | cons v rest =>
      obtain ⟨neighbor, later⟩ := List.isChain_cons_cons.mp chain
      obtain ⟨links, steps, pairs⟩ := ih later
      obtain ⟨link, -, found, pair⟩ := Graph.linkBetween?_of_mem (valid.mem_adjacency_iff.mp neighbor)
      refine ⟨link :: links, ?_, ?_⟩
      · rw [Graph.stepsAlong, steps, found, List.map_cons]
      · rw [List.map_cons, pairs, pair]
        rfl

/-- The vertices and links of the paths from the sets on a stack to their vertices. -/
structure StandsFor (g : Graph) (terminals : List Nat) (stack : List (Nat × Nat)) (vertices : List Nat)
    (links : List Link) : Prop where
  vertices : ∀ u, u ∈ vertices ↔
    ∃ cell ∈ stack, (cell.1 ≠ 0 ∧ u = cell.2) ∨ SomePath g terminals cell.1 cell.2 (u ∈ ·)
  edges : ∀ edge, edge ∈ edgesOf links ↔
    ∃ cell ∈ stack, SomePath g terminals cell.1 cell.2 (edge ∈ Hops.pairsAlong ·)

namespace StandsFor

theorem nil (g : Graph) (terminals : List Nat) : StandsFor g terminals [] [] [] where
  vertices := by simp
  edges := by simp [edgesOf]

theorem skip (stands : StandsFor g terminals stack vertices links) :
    StandsFor g terminals ((0, v) :: stack) vertices links where
  vertices u := by
    rw [stands.vertices, List.exists_mem_cons_iff, or_iff_right]
    rintro (⟨nonempty, -⟩ | path)
    · exact nonempty rfl
    · exact not_somePath_zero path
  edges edge := by rw [stands.edges, List.exists_mem_cons_iff, or_iff_right not_somePath_zero]

/-- A path to the vertex of a set with one member. -/
theorem direct (stands : StandsFor g terminals stack vertices links) (listed : terminals[i]? = some terminal)
    (found : g.path terminal v = .ok path) {more : List Link} (pairs : more.map Link.pair = Hops.pairsAlong path) :
    StandsFor g terminals ((2 ^ i, v) :: stack) (v :: path ++ vertices) (more ++ links) where
  vertices u := by
    rw [List.exists_mem_cons_iff, ← stands.vertices, somePath_two_pow_iff listed found, List.cons_append, List.mem_cons,
      List.mem_append, and_iff_right (Nat.two_pow_pos i).ne', or_assoc]
  edges edge := by
    rw [List.exists_mem_cons_iff, ← stands.edges, somePath_two_pow_iff listed found, edgesOf_append, Finset.mem_union,
      edgesOf, List.mem_toFinset, pairs]

/-- A set has the paths of a part and those of the rest. -/
theorem merge (part : IsPart mask sub)
    (stands : StandsFor g terminals ((sub, v) :: (mask ^^^ sub, v) :: stack) vertices links) :
    StandsFor g terminals ((mask, v) :: stack) (v :: vertices) links where
  vertices u := by
    have nonempty : mask ≠ 0 := fun zero => absurd part.lt (by omega)
    rw [List.mem_cons, stands.vertices, List.exists_mem_cons_iff, List.exists_mem_cons_iff, List.exists_mem_cons_iff,
      somePath_rest_iff part, and_iff_right nonempty, and_iff_right part.nonempty, and_iff_right part.rest.nonempty]
    dsimp only
    grind
  edges edge := by
    rw [stands.edges, List.exists_mem_cons_iff, List.exists_mem_cons_iff, List.exists_mem_cons_iff,
      somePath_rest_iff part, or_assoc]

end StandsFor

/-- Without relaxed rows, a stack collects the paths from its sets to its vertices. -/
theorem Collects.standsFor (collects : Collects g t stack vertices steps)
    (filled : t.Filled false g.adjacency terminals) (valid : g.WellFormed)
    (known : ∀ terminal ∈ terminals, terminal < g.size)
    (within : ∀ cell ∈ stack, cell.1 < 2 ^ terminals.length ∧ cell.2 < g.size) :
    ∃ links : List Link, steps = links.map some ∧ StandsFor g terminals stack vertices links := by
  induction collects with
  | done => exact ⟨[], rfl, .nil g terminals⟩
  | skip _ ih =>
    obtain ⟨links, same, stands⟩ := ih fun cell member => within cell (List.mem_cons_of_mem _ member)
    exact ⟨links, same, stands.skip⟩
  | @direct _ _ terminal _ _ _ _ _ _ found _ traced _ ih =>
    obtain ⟨below, inside⟩ := within _ List.mem_cons_self
    obtain ⟨links, same, stands⟩ := ih fun cell member => within cell (List.mem_cons_of_mem _ member)
    cases filled.justified_cellAt below inside found with
    | direct single listed _ =>
      subst single
      have way := Graph.path_eq_ok_iff.mpr traced
      have first := (valid.isFirst_iff (known terminal (List.mem_of_getElem? listed))).mpr way
      obtain ⟨more, walked, pairs⟩ := valid.exists_stepsAlong first.chain
      exact ⟨more ++ links, by rw [walked, same, List.map_append], stands.direct listed way pairs⟩
  | @merge mask v sub _ stack _ _ _ found _ ih =>
    obtain ⟨below, inside⟩ := within _ List.mem_cons_self
    cases filled.justified_cellAt below inside found with
    | merge part splits =>
      have cells : ∀ cell ∈ (sub, v) :: (mask ^^^ sub, v) :: stack,
          cell.1 < 2 ^ terminals.length ∧ cell.2 < g.size := by
        intro cell member
        rcases List.mem_cons.mp member with rfl | member
        · exact ⟨part.lt_two_pow below, inside⟩
        rcases List.mem_cons.mp member with rfl | member
        · exact ⟨part.rest.lt_two_pow below, inside⟩
        · exact within cell (List.mem_cons_of_mem _ member)
      obtain ⟨links, same, stands⟩ := ih cells
      exact ⟨links, same, stands.merge part⟩
  | move _ found _ _ =>
    obtain ⟨below, inside⟩ := within _ List.mem_cons_self
    cases filled.justified_cellAt below inside found with
    | move asked => cases asked

/-! ## The tree of a hub -/

/-- Exactly the vertices and the edges of the paths from some terminals to a hub. -/
structure Graph.IsStar (g : Graph) (terminals : List Nat) (hub : Nat) (tree : Tree) : Prop where
  paths : ∀ terminal ∈ terminals, ∃ path, g.path terminal hub = .ok path
  vertices : ∀ v, v ∈ tree.vertices ↔ ∃ terminal ∈ terminals, ∃ path, g.path terminal hub = .ok path ∧ v ∈ path
  edges : ∀ edge, edge ∈ edgesOf tree.links ↔
    ∃ terminal ∈ terminals, ∃ path, g.path terminal hub = .ok path ∧ edge ∈ Hops.pairsAlong path

theorem edgesOf_eq_of_distinctSteps {links kept : List Link}
    (distinct : Trail.distinctSteps (links.map some) = kept.map some) : edgesOf kept = edgesOf links := by
  obtain ⟨others, same, sublist, -, complete⟩ := Trail.exists_distinctSteps links
  obtain rfl : others = kept := List.map_injective_iff.mpr (Option.some_injective Link) (same.symm.trans distinct)
  refine (edgesOf_mono sublist.subset).antisymm fun edge member => ?_
  obtain ⟨link, among, rfl⟩ := mem_edgesOf_iff.mp member
  exact List.mem_toFinset.mpr (complete link among)

namespace Graph

theorem somePath_fullMask_iff : SomePath g terminals (fullMask terminals) v property ↔
    ∃ terminal ∈ terminals, ∃ path, g.path terminal v = .ok path ∧ property path := by
  rw [SomePath, members_fullMask]
  rfl

/-- The tree that is read off without relaxed rows is the star of its hub. -/
theorem IsRead.isStar (isRead : g.IsRead false terminals hub c tree) (valid : g.WellFormed)
    (known : ∀ terminal ∈ terminals, terminal < g.size) (nonempty : terminals ≠ []) (inside : hub < g.size) :
    g.IsStar terminals hub tree := by
  have paths : ∀ terminal ∈ terminals, ∃ path, g.path terminal hub = .ok path := by
    intro terminal member
    have listed := isRead.reads.holds terminal (members_fullMask terminals ▸ member)
    have joined := isRead.reads.branch.joins terminal listed
    exact valid.exists_path (known terminal member) (joined.mono (edgesOf_subset_edgeSet isRead.reads.branch.used)).symm
  obtain ⟨read, found, rfl⟩ := isRead.source
  obtain ⟨vertices, steps, collects, distinct, kept⟩ := Table.collects_of_tree found
  obtain ⟨links, rfl, holds, edges⟩ := collects.standsFor (g.filled_costTable false terminals) valid known
    fun cell member => by rw [List.mem_singleton.mp member]; exact ⟨fullMask_lt terminals, inside⟩
  simp only [List.mem_singleton, exists_eq_left, somePath_fullMask_iff] at holds edges
  refine ⟨paths, fun v => ?_, fun edge => ?_⟩
  · change v ∈ read.vertices ↔ _
    rw [kept, List.mem_filter, decide_eq_true_iff, holds]
    constructor
    · rintro ⟨-, ⟨-, rfl⟩ | path⟩
      · obtain ⟨first, member⟩ := List.exists_mem_of_ne_nil terminals nonempty
        obtain ⟨path, found⟩ := paths first member
        have last := ((valid.isFirst_iff (known first member)).mpr found).last
        exact ⟨first, member, path, found, List.mem_of_getLast? last⟩
      · exact path
    · rintro ⟨terminal, member, path, found, among⟩
      exact ⟨List.mem_range.mpr (valid.lt_size_of_mem_path (known terminal member) found v among),
        .inr ⟨terminal, member, path, found, among⟩⟩
  · change edge ∈ edgesOf read.links ↔ _
    rw [edgesOf_eq_of_distinctSteps distinct, edges]

/-! ## No cycles -/

/-- The vertex after another one on its path to a hub. -/
def next (g : Graph) (hub v : Nat) : Nat :=
  match g.path v hub with
  | .ok (_ :: w :: _) => w
  | _ => v

/-- A path goes on from each of its vertices as the path from there does. -/
theorem IsStar.exists_next (star : g.IsStar terminals hub tree) (valid : g.WellFormed)
    (known : ∀ terminal ∈ terminals, terminal < g.size) {edge : Sym2 Nat} (member : edge ∈ edgesOf tree.links) :
    ∃ v ∈ tree.vertices, v ≠ hub ∧ edge = s(v, g.next hub v) := by
  obtain ⟨terminal, listed, path, found, along⟩ := (star.edges edge).mp member
  obtain ⟨front, v, w, back, rfl, rfl⟩ := Hops.mem_pairsAlong_iff.mp along
  have among : v ∈ front ++ v :: w :: back := List.mem_append_right front List.mem_cons_self
  have inside := valid.lt_size_of_mem_path (known terminal listed) found v among
  have rest := ((valid.isFirst_iff (known terminal listed)).mpr found).suffix
  have onward := (valid.isFirst_iff inside).mp rest
  refine ⟨v, (star.vertices v).mpr ⟨terminal, listed, _, found, among⟩, ?_, ?_⟩
  · rintro rfl
    exact List.cons_ne_nil w back (List.cons.inj rest.eq_singleton).2
  · rw [next, onward]

/-- Fewer edges than vertices that connect these are a spanning tree of them. -/
theorem IsStar.isSpanningTree (star : g.IsStar terminals hub tree) (valid : g.WellFormed)
    (known : ∀ terminal ∈ terminals, terminal < g.size) {wanted : Set Nat} (connector : g.IsConnector wanted tree)
    (rooted : hub ∈ tree.vertices) : IsSpanningTree (edgesOf tree.links) tree.vertices.toFinset := by
  obtain ⟨few, subset, spanning⟩ := connector.joins.exists_spanning_tree ⟨hub, List.mem_toFinset.mpr rooted⟩
    (edgesOf_within connector.ends)
  have image : edgesOf tree.links ⊆ (tree.vertices.toFinset.erase hub).image fun v => s(v, g.next hub v) := by
    intro edge member
    obtain ⟨v, listed, away, rfl⟩ := star.exists_next valid known member
    exact Finset.mem_image_of_mem _ (Finset.mem_erase.mpr ⟨away, List.mem_toFinset.mpr listed⟩)
  have most := (Finset.card_le_card image).trans Finset.card_image_le
  rw [Finset.card_erase_of_mem (List.mem_toFinset.mpr rooted)] at most
  have count := spanning.count
  have whole : few = edgesOf tree.links := Finset.eq_of_subset_of_card_le subset (by omega)
  exact whole ▸ spanning

/-- The vertices and edges of the paths from some terminals to a hub are a tree. -/
theorem IsStar.isTree (star : g.IsStar terminals hub tree) (valid : g.WellFormed)
    (known : ∀ terminal ∈ terminals, terminal < g.size) {wanted : Set Nat} (connector : g.IsConnector wanted tree)
    (rooted : hub ∈ tree.vertices) :
    (g.part {v | v ∈ tree.vertices} (edgesOf tree.links)).coe.IsTree ∧
      tree.vertices.length = tree.links.length + 1 := by
  have spanning := star.isSpanningTree valid known connector rooted
  exact ⟨part_isTree_of_spanning connector.used connector.loopless spanning,
    spanning.length_eq connector.once connector.distinct⟩

end Graph

end SteinerTrees
