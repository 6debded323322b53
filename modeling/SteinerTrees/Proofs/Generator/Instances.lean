import Mathlib
import SteinerTrees.Proofs.Generator.Components
import SteinerTrees.Proofs.Generator.Lattice
import SteinerTrees.Proofs.InstanceFile.Checked
import SteinerTrees.Proofs.Solver.Query

/-! # Generated instances can be solved

Whatever a lawful source draws, an instance of a numeric size lists the numbers below it, edges without loops and
repeated pairs, and terminals from the first of the largest components. Such an instance passes the check of instance
files, its graph is that of its layout, and a query for its terminals can fail only because there are too many. -/

namespace SteinerTrees

variable {source : Source} {kind : GeneratorKind} {size wanted seed : Value} {params described : List (String × Value)}
  {labels : List Value} {layout : Layout} {g : Generated} {terminals : List Nat} {k : Int} {available n : Nat}

/-! ## Counts -/

namespace Value

theorem quantity_of_count {value : Value} (counted : value.count = .ok k) : value.quantity = .ok (.ofInt k) := by
  cases value with
  | int n =>
    cases counted
    rfl
  | bool b =>
    cases counted
    rfl
  | _ => cases counted

theorem den_pos {value : Value} {num : Int} {den : Nat} (measured : value.quantity = .ok (.finite num den)) :
    0 < den := by
  cases value with
  | int n =>
    cases measured
    exact Nat.one_pos
  | bool b =>
    cases measured
    exact Nat.one_pos
  | float x =>
    have finite := Except.ok.inj measured
    unfold Binary64.quantity at finite
    split_ifs at finite <;>
    · cases finite
      exact Nat.two_pow_pos _
  | _ => cases measured

end Value

namespace Generated

theorem sampleSize_eq (counted : wanted.count = .ok k) (positive : 0 ≤ k) (available : Nat) :
    sampleSize wanted available = .ok (min k.toNat available) := by
  simp only [sampleSize, Value.quantity_of_count counted, counted, bind, Except.bind, Quantity.ofInt,
    Quantity.isBelow, Quantity.isAtMost]
  by_cases fewer : (available : Int) < k
  · simp [fewer, pure, Except.pure]
    omega
  · simp [fewer, positive.not_gt, pure, Except.pure]
    omega

/-- A growing graph has more nodes than each new one has links, and these are not none. -/
theorem links_lt_ceiling {extent : Quantity} {m : Int} (measured : size.quantity = .ok extent)
    (fits : ¬((Quantity.ofInt m).isBelow (.ofInt 1) || extent.isAtMost (.ofInt m)) = true) :
    0 < m.toNat ∧ m.toNat < extent.ceiling?.getD (m.toNat + 1) := by
  obtain ⟨enough, more⟩ := not_or.mp (Bool.or_eq_true _ _ ▸ fits)
  have positive : 0 < m := by
    simp only [Quantity.ofInt, Quantity.isBelow, decide_eq_true_eq] at enough
    omega
  refine ⟨by omega, ?_⟩
  cases extent with
  | finite num den =>
    have divisor := Value.den_pos measured
    have above : m * den < num := by
      simpa [Quantity.isAtMost, Quantity.ofInt, Quantity.isBelow] using more
    have ceiling : m + 1 ≤ (num + den - 1) / den := by
      rw [Int.le_ediv_iff_mul_le (by omega), Int.add_mul]
      omega
    simp only [Quantity.ceiling?, Option.getD_some]
    omega
  | infinite negative => exact Nat.lt_succ_self _
  | undefined => exact Nat.lt_succ_self _

/-- A grid is laid out if its rows and columns can be listed. -/
theorem layOut_grid2d_eq_ok_iff (counted : size.count = .ok n) {result : List Value × Layout × List (String × Value)} :
    layOut .grid2d source size params seed = .ok result ↔
      Layout.rows n < Nat.pow 2 60 ∧ Layout.columns n < Nat.pow 2 60 ∧
      result = (Value.numbers n, .grid (Layout.rows n) (Layout.columns n),
        [("rows", .int (Layout.rows n)), ("cols", .int (Layout.columns n))]) := by
  obtain ⟨s, t, joined, numbered, nodes, grid⟩ := Skeleton.exists_lattice (Layout.rows n) (Layout.columns n)
  have natural : ¬ (n : Int) < 0 := by omega
  simp only [layOut, counted, bind, Except.bind, if_neg natural, Int.toNat_natCast]
  constructor
  · intro laid
    obtain ⟨_, listed, laid⟩ := bind_eq_ok_iff.mp laid
    obtain ⟨_, also, laid⟩ := bind_eq_ok_iff.mp laid
    obtain ⟨rows, rfl⟩ := Value.listNumbers_eq_ok_iff.mp listed
    obtain ⟨columns, rfl⟩ := Value.listNumbers_eq_ok_iff.mp also
    simp only [joined, numbered, nodes, grid, Layout.rows_mul_columns] at laid
    cases laid
    exact ⟨rows, columns, rfl⟩
  · rintro ⟨rows, columns, rfl⟩
    simp only [Value.listNumbers_of_lt rows, Value.listNumbers_of_lt columns, joined, numbered, nodes, grid,
      Layout.rows_mul_columns]
    rfl

/-- A random graph of a numeric size has the numbers below it for labels. -/
theorem random_of_layOut (number : size.isNumber = true)
    (laid : layOut .erdosRenyi source size params seed = .ok (labels, layout, described)) :
    ∃ (n : Int) (chance : Layout.Chance), size.count = .ok n ∧ labels = Value.numbers n.toNat ∧
      layout = source.random chance n.toNat := by
  unfold layOut at laid
  simp only at laid
  obtain ⟨-, -, laid⟩ := bind_eq_ok_iff.mp laid
  obtain ⟨chance, -, laid⟩ := bind_eq_ok_iff.mp laid
  split at laid
  next n counted =>
    obtain ⟨nodes, listed, laid⟩ := bind_eq_ok_iff.mp laid
    obtain ⟨-, rfl⟩ := Value.listNumbers_eq_ok_iff.mp listed
    split at laid
    · cases laid
    · cases laid
      exact ⟨n, chance, counted, rfl, rfl⟩
  next failure uncounted =>
    obtain ⟨s, listed, laid⟩ := bind_eq_ok_iff.mp laid
    -- only a collection has items, and a collection is no number
    cases size with
    | int n => cases uncounted
    | bool b => cases uncounted
    | float x => cases listed
    | _ => cases number

/-- A growing graph has as many nodes as its size rounded up, which are more than each new one has links. -/
theorem preferential_of_layOut
    (laid : layOut .barabasiAlbert source size params seed = .ok (labels, layout, described)) :
    ∃ (m : Nat) (extent : Quantity), size.quantity = .ok extent ∧ 0 < m ∧ m < extent.ceiling?.getD (m + 1) ∧
      labels = Value.numbers (extent.ceiling?.getD (m + 1)) ∧
      layout = source.preferential m (extent.ceiling?.getD (m + 1)) := by
  unfold layOut at laid
  simp only at laid
  obtain ⟨links, -, laid⟩ := bind_eq_ok_iff.mp laid
  obtain ⟨-, -, laid⟩ := bind_eq_ok_iff.mp laid
  obtain ⟨least, measured, laid⟩ := bind_eq_ok_iff.mp laid
  obtain ⟨extent, sized, laid⟩ := bind_eq_ok_iff.mp laid
  split at laid
  · cases laid
  next fits =>
    obtain ⟨m, counted, laid⟩ := bind_eq_ok_iff.mp laid
    obtain ⟨-, -, laid⟩ := bind_eq_ok_iff.mp laid
    cases laid
    rw [Value.quantity_of_count counted] at measured
    cases measured
    obtain ⟨some, fewer⟩ := links_lt_ceiling sized fits
    exact ⟨m.toNat, extent, sized, some, fewer, rfl, rfl⟩

/-- The layout of a numeric size has the numbers for labels. It has as many nodes as a whole size says. -/
theorem layOut_spec (lawful : source.Lawful) (number : size.isNumber = true)
    (laid : layOut kind source size params seed = .ok (labels, layout, described)) :
    labels = Value.numbers layout.size ∧ layout.Simple ∧ ∀ count : Int, size.count = .ok count →
      layout.size = count.toNat := by
  cases kind with
  | grid2d =>
    obtain ⟨n, counted, checked⟩ := bind_eq_ok_iff.mp laid
    simp only at checked
    split at checked
    · cases checked
    next natural =>
      obtain ⟨n, rfl⟩ := Int.eq_ofNat_of_zero_le (not_lt.mp natural)
      obtain ⟨-, -, same⟩ := (layOut_grid2d_eq_ok_iff counted).mp laid
      cases same
      refine ⟨congrArg Value.numbers (Layout.rows_mul_columns n).symm, (Layout.isGrid_grid _ _).simple,
        fun count also => ?_⟩
      cases counted.symm.trans also
      exact Layout.rows_mul_columns n
  | erdosRenyi =>
    obtain ⟨n, chance, counted, rfl, rfl⟩ := random_of_layOut number laid
    obtain ⟨same, simple⟩ := lawful.random chance n.toNat
    refine ⟨by rw [same], simple, fun count also => ?_⟩
    cases counted.symm.trans also
    exact same
  | barabasiAlbert =>
    obtain ⟨m, extent, sized, some, fewer, rfl, rfl⟩ := preferential_of_layOut laid
    obtain ⟨same, simple⟩ := lawful.preferential _ _ some fewer
    refine ⟨by rw [same], simple, fun count also => ?_⟩
    rw [Value.quantity_of_count also] at sized
    cases sized
    rw [same]
    simp [Quantity.ofInt, Quantity.ceiling?]

/-! ## Terminals -/

/-- Distinct numbers are drawn in strictly ascending order. -/
theorem ascending_mergeSort (below : ∀ v ∈ terminals, v < n) (distinct : terminals.Nodup) :
    (terminals.mergeSort fun a b =>
      ((Value.numbers n).getD a .null).precedes ((Value.numbers n).getD b .null)).Pairwise (· < ·) := by
  have mapped := List.map_mergeSort (f := id) (l := terminals)
    (r := fun a b => ((Value.numbers n).getD a .null).precedes ((Value.numbers n).getD b .null))
    (s := fun a b => decide (a ≤ b)) fun a first b second => by
      rw [Value.getD_numbers (below a first), Value.getD_numbers (below b second), Value.precedes_int]
      rfl
  rw [List.map_id, List.map_id] at mapped
  rw [mapped]
  have ordered := List.pairwise_mergeSort' (· ≤ ·) terminals
  have once := (List.mergeSort_perm terminals fun a b => decide (a ≤ b)).nodup_iff.mpr distinct
  exact (ordered.and once).imp fun both => lt_of_le_of_ne both.1 both.2

/-- Numbers are in order, so drawing needs a seed and a number of terminals only. -/
theorem drawTerminals_eq (simple : layout.Simple) (nonempty : layout.size ≠ 0) :
    drawTerminals source (Value.numbers layout.size) layout wanted seed = (do
      checkSeed seed
      let count ← sampleSize wanted layout.largestComponent.length
      return (source.sample count layout.largestComponent).mergeSort fun a b =>
        ((Value.numbers layout.size).getD a .null).precedes ((Value.numbers layout.size).getD b .null)) := by
  have largest := Layout.isFirstLargest_largestComponent simple (Nat.pos_of_ne_zero nonempty)
  have ordered :
      Value.areOrdered (layout.largestComponent.map fun v => (Value.numbers layout.size).getD v .null) = true := by
    refine Bool.or_eq_true_iff.mpr (.inr (List.all_eq_true.mpr (List.forall_mem_map.mpr fun v member => ?_)))
    rw [Value.getD_numbers ((largest.component.eq_component simple).2 v member).1]
    rfl
  simp only [drawTerminals, if_neg nonempty, ordered, Bool.not_true, Bool.false_eq_true, if_false]

/-- The terminals that are drawn from a layout. -/
structure Drawn (layout : Layout) (wanted : Nat) (terminals : List Nat) : Prop where
  ascending : terminals.Pairwise (· < ·)
  /-- They come from the first of the largest components, as many as are asked for or all of fewer. -/
  source : layout.size = 0 ∧ terminals = [] ∨ ∃ component, layout.IsFirstLargest component ∧
    (∀ v ∈ terminals, v ∈ component) ∧ terminals.length = min wanted component.length

theorem drawn_of_drawTerminals (lawful : source.Lawful) (simple : layout.Simple) (counted : wanted.count = .ok k)
    (positive : 0 ≤ k)
    (drawn : drawTerminals source (Value.numbers layout.size) layout wanted seed = .ok terminals) :
    Drawn layout k.toNat terminals := by
  by_cases empty : layout.size = 0
  · rw [drawTerminals, if_pos empty] at drawn
    cases drawn
    exact ⟨.nil, .inl ⟨empty, rfl⟩⟩
  · rw [drawTerminals_eq simple empty, sampleSize_eq counted positive] at drawn
    obtain ⟨-, -, drawn⟩ := bind_eq_ok_iff.mp drawn
    cases drawn
    have largest := Layout.isFirstLargest_largestComponent simple (Nat.pos_of_ne_zero empty)
    generalize layout.largestComponent = component at largest ⊢
    obtain ⟨size, within⟩ := lawful.sample (min k.toNat component.length) component (Nat.min_le_right _ _)
    have inside : ∀ v ∈ component, v < layout.size := fun v member =>
      ((largest.component.eq_component simple).2 v member).1
    have sorted := List.mergeSort_perm (source.sample (min k.toNat component.length) component)
      fun a b => ((Value.numbers layout.size).getD a .null).precedes ((Value.numbers layout.size).getD b .null)
    refine ⟨ascending_mergeSort (fun v member => inside v (within.subset member)) ?_, .inr ⟨component, largest,
      fun v member => within.subset (sorted.mem_iff.mp member), sorted.length_eq.trans size⟩⟩
    obtain ⟨kept, perm, sublist⟩ := within
    exact perm.nodup_iff.mp (largest.component.ascending.imp Nat.ne_of_lt |>.sublist sublist)

end Generated

/-! ## The graph -/

namespace Layout

/-- The edge that an instance lists for an edge of a layout. -/
def entryOf (edge : Nat × Nat) : EdgeEntry :=
  ⟨.int edge.1, .int edge.2, edgeName edge⟩

theorem simple_entries (simple : layout.Simple) : EdgeEntry.Simple (layout.edges.map entryOf) := by
  constructor
  · refine List.forall_mem_map.mpr fun edge member loop => simple.loopless edge member ?_
    have same := (EdgeEntry.isLoop_iff (EdgeEntry.proper_int edge.1 edge.2 _)).mp loop
    exact Int.natCast_inj.mp (Value.key_int_iff.mp same)
  · rw [List.pairwise_map]
    refine (List.pairwise_map.mp simple.pairs).imp fun {edge other} differ joins => differ (Sym2.eq_iff.mpr ?_)
    have same := (EdgeEntry.joins_iff (EdgeEntry.proper_int edge.1 edge.2 _)).mp joins
    simpa only [entryOf, Value.key_int_iff, Int.natCast_inj] using same

theorem indexOf?_graph (simple : layout.Simple) {v : Nat} (inside : v < layout.size) :
    layout.graph.indexOf? (.int v) = some v := by
  have bound : v < layout.graph.size := by rwa [size_graph]
  have label : layout.graph.label v = .int v := by
    rw [Graph.label_eq bound]
    simp [graph, Value.numbers]
  rw [← label]
  exact (wellFormed_graph simple).indexOf?_label bound

/-- The graph of a layout is the one that is built from its numbers and edges. -/
theorem traces_graph (simple : layout.Simple) :
    Graph.Traces (Value.numbers layout.size ++ (layout.edges.map entryOf).flatMap EdgeEntry.ends)
      (layout.edges.map entryOf) layout.graph := by
  refine ⟨wellFormed_graph simple, ?_, ?_,
    List.forall_mem_map.mpr fun edge _ => EdgeEntry.proper_int edge.1 edge.2 _, simple_entries simple⟩
  · have once : ((Value.numbers layout.size).map Value.key).Nodup := Value.nodup_key_numbers layout.size
    rw [Value.distinct_append_of_mem, Value.distinct_eq_self once]
    · rfl
    intro label member
    obtain ⟨e, listed, ended⟩ := List.mem_flatMap.mp member
    obtain ⟨edge, joined, rfl⟩ := List.mem_map.mp listed
    obtain ⟨first, second⟩ := simple.inside edge joined
    have known (v : Nat) (inside : v < layout.size) : Value.int v ∈ Value.numbers layout.size :=
      List.mem_map_of_mem (List.mem_range.mpr inside)
    refine List.mem_map_of_mem ?_
    rcases List.mem_pair.mp ended with rfl | rfl
    · exact known _ first
    · exact known _ second
  · rw [graph, List.forall₂_map_left_iff, List.forall₂_map_right_iff, List.forall₂_same]
    intro edge member
    obtain ⟨first, second⟩ := simple.inside edge member
    exact ⟨indexOf?_graph simple first, indexOf?_graph simple second, rfl⟩

end Layout

namespace Generated

/-- The labels of terminals. -/
def labelsOf (terminals : List Nat) : List Value := terminals.map fun v : Nat => .int v

/-- A query for terminals that lie in one component fails at most because there are too many. -/
theorem solve_cases (simple : layout.Simple) {nodes : List Nat} (component : layout.IsComponent nodes)
    (inside : ∀ v ∈ terminals, v ∈ nodes) (settings : SolverSettings) {failure : Failure}
    (failed : layout.graph.solve settings (labelsOf terminals) = .error failure) :
    ∃ count : Nat, settings.maxTerminals < count ∧
      failure = (Failure.tooManyTerminals count settings.maxTerminals).written := by
  obtain ⟨-, root, -, joined⟩ := component
  have found (v : Nat) (member : v ∈ terminals) : layout.graph.indexOf? (.int v) = some v :=
    Layout.indexOf?_graph simple ((joined v).mp (inside v member)).1
  have hashable : ∀ label ∈ labelsOf terminals, label.isHashable = true := List.forall_mem_map.mpr fun _ _ => rfl
  have complete : layout.graph.missing (labelsOf terminals) = [] := by
    refine Graph.missing_eq_nil_iff.mpr (List.forall_mem_map.mpr fun v listed => ?_)
    rw [found v listed]
    exact Option.some_ne_none v
  have together : layout.graph.InOneComponent (layout.graph.found (labelsOf terminals)) := by
    have reached : ∀ v ∈ layout.graph.found (labelsOf terminals), Joined layout.graph.edgeSet root v := by
      intro v member
      obtain ⟨label, listed, here⟩ := Graph.mem_found_iff.mp member
      obtain ⟨w, terminal, rfl⟩ := List.mem_map.mp listed
      obtain rfl := Option.some.inj ((found w terminal).symm.trans here)
      exact ((joined w).mp (inside w terminal)).2
    exact fun u first v second => Graph.simple_reachable_iff.mpr ((reached u first).symm.trans (reached v second))
  have named : ∀ link ∈ layout.graph.links.toList, link.name.isHashable = true :=
    List.forall_mem_map.mpr fun _ _ => rfl
  rw [Graph.solve_of_complete settings hashable complete] at failed
  rcases Graph.solveResolved_cases (Layout.wellFormed_graph simple) (Graph.lt_size_of_mem_found _ _) named settings with
    ⟨⟨-, above⟩, many⟩ | ⟨-, ⟨-, apart⟩, -⟩ | ⟨-, -, tree, solved, -⟩
  · rw [many] at failed
    cases failed
    exact ⟨_, above, rfl⟩
  · exact absurd together apart
  · rw [solved] at failed
    cases failed

/-- No terminal is drawn from an empty layout, and all others lie in one component. -/
theorem Drawn.cases {wanted : Nat} (drawn : Drawn layout wanted terminals) :
    terminals = [] ∨ ∃ nodes, layout.IsComponent nodes ∧ ∀ v ∈ terminals, v ∈ nodes :=
  drawn.source.imp And.right fun ⟨nodes, largest, inside, _⟩ => ⟨nodes, largest.component, inside⟩

theorem Drawn.lt_size {wanted : Nat} (drawn : Drawn layout wanted terminals) {v : Nat} (member : v ∈ terminals) :
    v < layout.size := by
  rcases drawn.cases with rfl | ⟨nodes, ⟨-, root, -, joined⟩, inside⟩
  · cases member
  · exact ((joined v).mp (inside v member)).1

/-- What every generated instance is like: it lists the numbers below its size, edges without loops and repeated pairs,
and terminals from the first of the largest components. -/
structure Solvable (g : Generated) (wanted : Nat) : Prop where
  describes : g.toInstance.Describes (Value.numbers g.layout.size) (g.layout.edges.map Layout.entryOf)
  room : g.layout.size < Nat.pow 2 60
  listed : g.toInstance.field "terminals" >>= Value.items = .ok (labelsOf g.terminals)
  simple : g.layout.Simple
  drawn : Drawn g.layout wanted g.terminals
  /-- It passes the check of instance files, which adds a name. -/
  passes : ∀ index, InstanceFile.check index g.toInstance =
    .ok (.dict (g.entries ++ [("instance_name", .text s!"custom_{index}")]))
  /-- Its graph is built, and its vertices are the numbers in order. -/
  graph : Graph.ofInstance g.toInstance = .ok g.layout.graph ∧
    g.layout.graph.labels.toList = Value.numbers g.layout.size
  /-- Whatever the settings, a query for the terminals fails at most because there are too many. -/
  solve : ∀ settings failure, g.layout.graph.solve settings (labelsOf g.terminals) = .error failure →
    ∃ count : Nat, settings.maxTerminals < count ∧
      failure = (Failure.tooManyTerminals count settings.maxTerminals).written

/-- The parts of an instance of a numeric size. -/
theorem generateFrom_spec (lawful : source.Lawful) (number : size.isNumber = true)
    (counted : (wantedOf params).count = .ok k) (positive : 0 ≤ k)
    (generated : generateFrom kind source size params = .ok g) :
    g.labels = Value.numbers g.layout.size ∧ g.layout.size < Nat.pow 2 60 ∧ g.layout.Simple ∧
      Drawn g.layout k.toNat g.terminals := by
  unfold generateFrom at generated
  simp only at generated
  split at generated
  · cases generated
  · obtain ⟨⟨labels, layout, described⟩, laid, generated⟩ := bind_eq_ok_iff.mp generated
    obtain ⟨rfl, simple, -⟩ := layOut_spec lawful number laid
    simp only [Value.length_numbers] at generated
    split at generated
    · cases generated
    next room =>
      obtain ⟨terminals, drawn, generated⟩ := bind_eq_ok_iff.mp generated
      cases generated
      exact ⟨rfl, not_le.mp room, simple, drawn_of_drawTerminals lawful simple counted positive drawn⟩

theorem label_eq {v : Nat} (labels : g.labels = Value.numbers g.layout.size) (inside : v < g.layout.size) :
    g.label v = .int v := by
  rw [label, labels, Value.getD_numbers inside]

/-- An instance on numbers lists them, and the edges of its layout. -/
theorem describes_toInstance (labels : g.labels = Value.numbers g.layout.size) (simple : g.layout.Simple) :
    g.toInstance.Describes (Value.numbers g.layout.size) (g.layout.edges.map Layout.entryOf) := by
  have nodes : g.toInstance.get "nodes" (.list []) = .ok (.list (Value.numbers g.layout.size)) := by
    rw [← labels]
    rfl
  have edges : (g.layout.edges.map g.edgeEntry).mapM EdgeEntry.ofValue = .ok (g.layout.edges.map Layout.entryOf) := by
    refine mapM_map_eq_ok fun edge member => ?_
    obtain ⟨first, second⟩ := simple.inside edge member
    rw [edgeEntry, label_eq labels first, label_eq labels second]
    rfl
  exact ⟨by rw [nodes]; rfl, edges⟩

/-- Its graph is that of its layout. -/
theorem ofInstance_toInstance (labels : g.labels = Value.numbers g.layout.size) (simple : g.layout.Simple) :
    Graph.ofInstance g.toInstance = .ok g.layout.graph :=
  (Layout.traces_graph simple).ofInstance (describes_toInstance labels simple) (List.forall_mem_map.mpr fun _ _ => rfl)

theorem Solvable.of_generateFrom (lawful : source.Lawful) (number : size.isNumber = true)
    (counted : (wantedOf params).count = .ok k) (positive : 0 ≤ k)
    (generated : generateFrom kind source size params = .ok g) : g.Solvable k.toNat := by
  obtain ⟨labels, room, simple, drawn⟩ := generateFrom_spec lawful number counted positive generated
  have described := describes_toInstance labels simple
  have listed : g.toInstance.field "terminals" >>= Value.items = .ok (labelsOf g.terminals) :=
    congrArg Except.ok (List.map_congr_left fun v member => label_eq labels (drawn.lt_size member))
  have traces := Layout.traces_graph simple
  have lists : InstanceFile.Lists g.toInstance (Value.numbers g.layout.size) (g.layout.edges.map Layout.entryOf)
      (labelsOf g.terminals) := by
    refine ⟨described, listed, List.forall_mem_map.mpr fun _ _ => rfl,
      fun e member label ended => (traces.proper e member label ended).1, List.forall_mem_map.mpr fun v member => ?_⟩
    rw [List.map_append]
    refine ⟨rfl, List.mem_append_left _ (List.mem_map_of_mem (List.mem_map_of_mem ?_))⟩
    exact List.mem_range.mpr (drawn.lt_size member)
  refine ⟨described, room, listed, simple, drawn, fun index => ?_, ⟨ofInstance_toInstance labels simple, rfl⟩,
    fun settings failure failed => ?_⟩
  · exact InstanceFile.check_of_complete lists (List.forall_mem_cons.mpr ⟨rfl, List.forall_mem_singleton.mpr rfl⟩)
      rfl rfl
  · rcases drawn.cases with none | ⟨nodes, component, inside⟩
    · rw [none] at failed
      cases failed
    · exact solve_cases simple component inside settings failed

/-- Every instance of a numeric size is well formed and can be solved, whatever a lawful source draws, and so whatever
the throws of the seed are. A size that is no number names the nodes itself. -/
theorem solvable_of_generate (number : size.isNumber = true) (counted : (wantedOf params).count = .ok k)
    (positive : 0 ≤ k) :
    (∀ source : Source, source.Lawful → ∀ g, generateFrom kind source size params = .ok g → g.Solvable k.toNat) ∧
    ∀ entropy g, generate kind entropy size params = .ok g → g.Solvable k.toNat :=
  ⟨fun _ lawful _ generated => .of_generateFrom lawful number counted positive generated,
    fun _ _ generated => .of_generateFrom (Source.lawful_ofDice _) number counted positive generated⟩

/-- Throws that join the second and the fifth pair of four nodes. -/
def twoThrows : Dice := fun throw => if throw = 1 ∨ throw = 4 then 0 else 9007199254740991

def half : Value := .float (.ofRatio false 1 2)

def pairedParams : List (String × Value) := [("p", half), ("num_terminals", .int 5)]

def paired : Generated where
  kind := .erdosRenyi
  requested := .int 4
  labels := Value.numbers 4
  layout := ⟨4, [(0, 2), (1, 3)]⟩
  terminals := [0, 2]
  params := pairedParams

theorem generateFrom_paired : generateFrom .erdosRenyi (.ofDice twoThrows) (.int 4) pairedParams = .ok paired := by
  have chance : chanceOf half = .ok (.ratio 4503599627370496 9007199254740992) := eq_ok_of_toOption (by decide +kernel)
  have layout : Layout.random twoThrows (.ratio 4503599627370496 9007199254740992) 4 = ⟨4, [(0, 2), (1, 3)]⟩ := by
    decide +kernel
  have terminals : drawTerminals (.ofDice twoThrows) (Value.numbers 4) ⟨4, [(0, 2), (1, 3)]⟩ (.int 5) .null =
      .ok [0, 2] := by
    cbv
  have laid : layOut .erdosRenyi (.ofDice twoThrows) (.int 4) pairedParams .null =
      .ok (Value.numbers 4, ⟨4, [(0, 2), (1, 3)]⟩, [("p", half)]) := by
    have named : Value.lookup? "p" pairedParams = some half := rfl
    simp only [layOut, named, Option.getD_some, chance, bind, Except.bind, checkGraphSeed]
    exact congrArg (fun layout => Except.ok (Value.numbers 4, layout, [("p", half)])) layout
  have seed : seedOf pairedParams = .null := rfl
  have wanted : wantedOf pairedParams = .int 5 := rfl
  rw [generateFrom, seed, wanted, laid]
  simp only [bind, Except.bind, terminals]
  rfl

/-- Two components of two nodes: the terminals are all of the first. -/
theorem solvable_of_generate_paired : (Value.int 4).isNumber = true ∧ (wantedOf pairedParams).count = .ok 5 ∧
    generateFrom .erdosRenyi (.ofDice twoThrows) (.int 4) pairedParams = .ok paired ∧ paired.Solvable 5 :=
  ⟨rfl, rfl, generateFrom_paired, (solvable_of_generate (k := 5) rfl rfl (by decide)).1 (.ofDice twoThrows)
    (Source.lawful_ofDice twoThrows) paired generateFrom_paired⟩

end Generated

end SteinerTrees
