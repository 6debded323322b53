import Mathlib.Data.List.Find
import SteinerTrees.Proofs.Graph.Adding
import SteinerTrees.Store

/-! # Indexes that are up to date

`Store.ofGraph` gives a graph the indexes that follow from its labels and links. Adding to a store and adding to
its graph are the same: the store that a call leaves behind is again the one that follows from the graph, so
the two directories, the adjacency of every vertex and the list of links never part. -/

namespace SteinerTrees

namespace Directory

variable {α : Type} {directory : Directory α} {a label : Value} {entry old : α}

theorem lookup?_eq_none_iff : directory.lookup? a = none ↔ ∀ entry ∈ directory, entry.1.key ≠ a.key := by
  simp only [lookup?, Option.map_eq_none_iff, List.find?_eq_none, Value.same_iff]
  exact forall_congr' fun _ => forall_congr' fun _ => not_congr eq_comm

/-- Under different labels, the entry of each is found. -/
theorem lookup?_of_mem (nodup : (directory.map (·.1.key)).Nodup) (member : (label, entry) ∈ directory)
    (same : label.key = a.key) : directory.lookup? a = some entry := by
  induction directory with
  | nil => cases member
  | cons first rest ih =>
    obtain ⟨fresh, nodup⟩ := List.nodup_cons.mp nodup
    rcases List.mem_cons.mp member with rfl | member
    · have hit : a.same label = true := Value.same_iff.mpr same.symm
      simp only [lookup?, List.find?_cons, hit, Option.map_some]
    · have differs : a.same first.1 = false := by
        refine Bool.eq_false_iff.mpr fun hit => fresh (List.mem_map.mpr ⟨_, member, ?_⟩)
        exact same.trans (Value.same_iff.mp hit)
      have later := ih nodup member
      rw [lookup?] at later
      simp only [lookup?, List.find?_cons, differs, later]

/-- A new label goes to the end. -/
theorem enter_of_fresh (fresh : ∀ other ∈ directory, other.1.key ≠ label.key) :
    directory.enter label entry = directory ++ [(label, entry)] := by
  induction directory with
  | nil => rfl
  | cons first rest ih =>
    have differs : label.same first.1 = false :=
      Bool.eq_false_iff.mpr fun hit => fresh first List.mem_cons_self (Value.same_iff.mp hit).symm
    rw [enter, differs, ih fun other member => fresh other (List.mem_cons_of_mem _ member)]
    rfl

/-- A second entry under one label replaces the first. -/
theorem enter_enter : (directory.enter label old).enter label entry = directory.enter label entry := by
  have hit : label.same label = true := Value.same_iff.mpr rfl
  induction directory with
  | nil => simp only [enter, hit, ↓reduceIte]
  | cons first rest ih =>
    cases same : label.same first.1 with
    | true => simp only [enter, same, ↓reduceIte]
    | false => simp only [enter, same, Bool.false_eq_true, ↓reduceIte, ih]

end Directory

namespace Graph

variable {g : Graph} {a name : Value} {u v w : Nat}

/-- The vertices under their labels. -/
def labelled (g : Graph) : Directory Nat := g.vertices.map fun v => (g.label v, v)

/-- The neighbours of a vertex under their labels, each with the link to it, in the order of the links. -/
def adjacencyOf (g : Graph) (u : Nat) : Directory (Nat × Link) :=
  g.links.toList.filterMap fun link => (link.other? u).map fun v => (g.label v, v, link)

theorem nodup_labelled (valid : g.WellFormed) : (g.labelled.map (·.1.key)).Nodup := by
  rw [labelled, List.map_map]
  refine List.Nodup.map_on ?_ List.nodup_range
  intro u first v second same
  exact valid.eq_of_key_eq (List.mem_range.mp first) (List.mem_range.mp second) same

/-- A label is found in the directory of the vertices where it is found among the labels. -/
theorem lookup?_labelled (valid : g.WellFormed) : g.labelled.lookup? a = g.indexOf? a := by
  cases found : g.indexOf? a with
  | none =>
    rw [Directory.lookup?_eq_none_iff]
    intro entry member
    obtain ⟨v, inside, rfl⟩ := List.mem_map.mp member
    exact indexOf?_eq_none_iff.mp found v (List.mem_range.mp inside)
  | some v =>
    obtain ⟨inside, same⟩ := indexOf?_spec found
    exact Directory.lookup?_of_mem (nodup_labelled valid)
      (List.mem_map.mpr ⟨v, List.mem_range.mpr inside, rfl⟩) same

/-- A neighbour is found in the directory of a vertex where a link to it is found. -/
theorem lookup?_adjacencyOf (valid : g.WellFormed) (inside : v < g.size) :
    ((g.adjacencyOf u).lookup? (g.label v)).map (·.2) = g.linkBetween? u v := by
  have joined : ∀ link ∈ g.links.toList,
      (((link.other? u).map fun w => (g.label w, w, link)).any fun entry => (g.label v).same entry.1) =
        link.joins u v := by
    intro link member
    rw [Link.joins]
    cases other : link.other? u with
    | none => rfl
    | some w =>
      have edge := mem_edgeSet_iff.mpr ⟨link, member, Link.other?_eq_some_iff.mp other⟩
      have bound := (valid.lt_size edge).2
      rw [Option.map_some, Option.any_some, Bool.eq_iff_iff, Value.same_iff, beq_iff_eq, Option.some.injEq]
      exact ⟨fun same => valid.eq_of_key_eq bound inside same.symm, fun same => by rw [same]⟩
  rw [Directory.lookup?, adjacencyOf, List.find?_filterMap, linkBetween?, ← Array.find?_toList,
    List.find?_congr joined]
  cases found : g.links.toList.find? (·.joins u v) with
  | none => rfl
  | some link =>
    have joins := List.find?_some found
    have other : link.other? u = some v := beq_iff_eq.mp joins
    simp only [Option.bind_some, other, Option.map_some]

/-! ### After adding -/

theorem label_push_of_lt (inside : v < g.size) : (g.push a).label v = g.label v := by
  have later : v < (g.push a).size := by rw [size_push]; omega
  rw [label_eq inside, label_eq later]
  exact Array.getElem_push_lt inside

theorem label_push_size : (g.push a).label g.size = a := by
  have inside : g.size < (g.push a).size := by rw [size_push]; omega
  rw [label_eq inside]
  exact Array.getElem_push_eq

theorem vertices_push : (g.push a).vertices = g.vertices ++ [g.size] := by
  rw [vertices, size_push, List.range_succ, vertices]

theorem labelled_push : (g.push a).labelled = g.labelled ++ [(a, g.size)] := by
  rw [labelled, vertices_push, List.map_append, List.map_singleton, label_push_size, labelled]
  congr 1
  refine List.map_congr_left fun v member => ?_
  rw [label_push_of_lt (List.mem_range.mp member)]

theorem adjacencyOf_push (valid : g.WellFormed) : (g.push a).adjacencyOf u = g.adjacencyOf u := by
  refine List.filterMap_congr fun link member => ?_
  cases other : link.other? u with
  | none => rfl
  | some v =>
    have edge := mem_edgeSet_iff.mpr ⟨link, member, Link.other?_eq_some_iff.mp other⟩
    rw [Option.map_some, Option.map_some, label_push_of_lt (valid.lt_size edge).2]

/-- A vertex at which no link ends has no neighbours. -/
theorem adjacencyOf_size (valid : g.WellFormed) : g.adjacencyOf g.size = [] := by
  refine List.filterMap_eq_nil_iff.mpr fun link member => ?_
  cases other : link.other? g.size with
  | none => rfl
  | some v =>
    have edge := mem_edgeSet_iff.mpr ⟨link, member, Link.other?_eq_some_iff.mp other⟩
    exact absurd (valid.lt_size edge).1 (lt_irrefl _)

/-- Vertices that are not linked are not found among each other's neighbours. -/
theorem adjacencyOf_fresh (valid : g.WellFormed) (inside : v < g.size) (fresh : s(u, v) ∉ g.edgeSet) :
    ∀ entry ∈ g.adjacencyOf u, entry.1.key ≠ (g.label v).key := by
  have absent := lookup?_adjacencyOf (u := u) valid inside
  rw [linkBetween?_eq_none_iff.mpr fresh, Option.map_eq_none_iff] at absent
  exact Directory.lookup?_eq_none_iff.mp absent

/-- A new link is entered at both ends. Its two entries are one if it leads from a vertex to itself. -/
theorem adjacencyOf_link (valid : g.WellFormed) (first : u < g.size) (second : v < g.size)
    (fresh : s(u, v) ∉ g.edgeSet) :
    (g.link name u v).adjacencyOf w =
      let started := if u = w then (g.adjacencyOf w).enter (g.label v) (v, ⟨name, u, v⟩) else g.adjacencyOf w
      if v = w then started.enter (g.label u) (u, ⟨name, u, v⟩) else started := by
  have appended : (g.link name u v).adjacencyOf w = g.adjacencyOf w ++
      (((Link.mk name u v).other? w).map fun x => (g.label x, x, Link.mk name u v)).toList := by
    rw [adjacencyOf, Graph.link, Array.toList_push, List.filterMap_append, List.filterMap_cons, List.filterMap_nil]
    cases (Link.mk name u v).other? w <;> rfl
  rw [appended]
  by_cases start : u = w
  · subst start
    have entered : (g.adjacencyOf u).enter (g.label v) (v, ⟨name, u, v⟩) = _ :=
      Directory.enter_of_fresh (adjacencyOf_fresh valid second fresh)
    by_cases stop : v = u
    · subst stop
      simp only [Link.other?, ↓reduceIte, Directory.enter_enter, Option.map_some, Option.toList_some]
      exact entered.symm
    · simp only [Link.other?, ↓reduceIte, stop, entered, Option.map_some, Option.toList_some]
  · by_cases stop : v = w
    · subst stop
      have entered : (g.adjacencyOf v).enter (g.label u) (u, ⟨name, u, v⟩) = _ :=
        Directory.enter_of_fresh (adjacencyOf_fresh valid first (Sym2.eq_swap ▸ fresh))
      simp only [Link.other?, start, ↓reduceIte, entered, Option.map_some, Option.toList_some]
    · simp only [Link.other?, start, stop, ↓reduceIte, Option.map_none, Option.toList_none, List.append_nil]

end Graph

namespace Store

variable {g : Graph} {s : Store} {link : Link} {a source destination name : Value} {u v w : Nat}

/-- The store of a graph, with every index made afresh. -/
def ofGraph (g : Graph) : Store where
  vertices := (g.vertices.map fun v => ⟨g.label v, g.adjacencyOf v⟩).toArray
  byLabel := g.labelled
  positions := g.labelled
  links := g.links

@[simp] theorem size_ofGraph : (ofGraph g).size = g.size := by
  simp only [size, ofGraph, Graph.vertices, List.size_toArray, List.length_map, List.length_range]

theorem vertexAt_ofGraph (inside : v < g.size) : (ofGraph g).vertexAt v = ⟨g.label v, g.adjacencyOf v⟩ := by
  simp only [vertexAt, ofGraph, Graph.vertices, Array.getD_eq_getD_getElem?, List.getElem?_toArray,
    List.getElem?_map, List.getElem?_range inside, Option.map_some, Option.getD_some]

/-- A link has the ends that it has in the graph. -/
theorem edge_ofGraph (first : link.source < g.size) (second : link.target < g.size) :
    (ofGraph g).edge link = g.edge link := by
  rw [edge, vertexAt_ofGraph first, vertexAt_ofGraph second, Graph.edge]

@[simp] theorem graph_ofGraph : (ofGraph g).graph = g := by
  have labels : (ofGraph g).vertices.map (·.label) = g.labels := by
    refine Array.ext (by rw [Array.size_map]; exact size_ofGraph) fun v _ inside => ?_
    simp only [ofGraph, Graph.vertices, Array.getElem_map, List.getElem_toArray, List.getElem_map,
      List.getElem_range]
    exact Graph.label_eq inside
  rw [graph, labels]
  rfl

/-! ## Adding to an indexed store -/

/-- A new vertex enters the two directories and has no neighbours. -/
theorem ofGraph_push (valid : g.WellFormed) (absent : g.indexOf? a = none) :
    ofGraph (g.push a) =
      { ofGraph g with
        vertices := (ofGraph g).vertices.push { label := a }
        byLabel := (ofGraph g).byLabel.enter a g.size
        positions := (ofGraph g).positions.enter a g.size } := by
  have fresh : ∀ entry ∈ g.labelled, entry.1.key ≠ a.key := by
    rw [← Directory.lookup?_eq_none_iff, Graph.lookup?_labelled valid]
    exact absent
  have directory : (g.push a).labelled = g.labelled.enter a g.size := by
    rw [Graph.labelled_push, Directory.enter_of_fresh fresh]
  have vertices : (g.push a).vertices.map (fun v => StoredVertex.mk ((g.push a).label v) ((g.push a).adjacencyOf v)) =
      g.vertices.map (fun v => ⟨g.label v, g.adjacencyOf v⟩) ++ [{ label := a }] := by
    rw [Graph.vertices_push, List.map_append, List.map_singleton, Graph.label_push_size,
      Graph.adjacencyOf_push valid, Graph.adjacencyOf_size valid]
    congr 1
    refine List.map_congr_left fun v member => ?_
    rw [Graph.label_push_of_lt (List.mem_range.mp member), Graph.adjacencyOf_push valid]
  simp only [ofGraph, directory, vertices, List.push_toArray]
  rfl

theorem addVertex_ofGraph (valid : g.WellFormed) (hashable : a.isHashable = true) :
    (ofGraph g).addVertex a =
      if (g.indexOf? a).isSome then .error (Failure.duplicateVertex a).written
      else .ok (ofGraph (g.push a), g.size) := by
  have read := Value.asLabel_of_isHashable hashable
  have found : (ofGraph g).byLabel.lookup? a = g.indexOf? a := Graph.lookup?_labelled valid
  simp only [addVertex, read, bind, Except.bind, found]
  cases absent : g.indexOf? a with
  | some v => rfl
  | none =>
    rw [ofGraph_push valid absent, size_ofGraph]
    rfl

theorem ensure_ofGraph (valid : g.WellFormed) (hashable : a.isHashable = true) :
    (ofGraph g).ensure a (g.indexOf? a) = .ok (ofGraph (g.ensure a).1, (g.ensure a).2) := by
  unfold Graph.ensure
  cases absent : g.indexOf? a with
  | some v => rfl
  | none =>
    rw [ensure, addVertex_ofGraph valid hashable, absent]
    rfl

theorem vertices_ext {s t : Store} (size : s.size = t.size) (same : ∀ w < s.size, s.vertexAt w = t.vertexAt w) :
    s.vertices = t.vertices := by
  refine Array.ext size fun w first second => ?_
  have here := same w first
  rwa [vertexAt, vertexAt, Array.getD_eq_getD_getElem?, Array.getD_eq_getD_getElem?, Array.getElem?_eq_getElem first,
    Array.getElem?_eq_getElem second] at here

@[simp] theorem size_connect : (s.connect u v link).size = s.size := Array.size_modify

theorem vertexAt_connect (inside : w < s.size) :
    (s.connect u v link).vertexAt w =
      if u = w then
        { s.vertexAt w with adjacency := (s.vertexAt w).adjacency.enter (s.vertexAt v).label (v, link) }
      else s.vertexAt w := by
  rw [size] at inside
  simp only [connect, vertexAt, Array.getD_eq_getD_getElem?, Array.getElem?_modify, Array.getElem?_eq_getElem inside,
    Option.map_some]
  split <;> rfl

theorem label_connect : ((s.connect u v link).vertexAt w).label = (s.vertexAt w).label := by
  simp only [vertexAt, connect, Array.getD_eq_getD_getElem?, Array.getElem?_modify]
  split
  · cases s.vertices[w]? <;> rfl
  · rfl

theorem vertexAt_link (inside : w < s.size) :
    (s.link name u v).vertexAt w =
      let vertex := s.vertexAt w
      let started := if u = w then vertex.adjacency.enter (s.vertexAt v).label (v, ⟨name, u, v⟩) else vertex.adjacency
      ⟨vertex.label, if v = w then started.enter (s.vertexAt u).label (u, ⟨name, u, v⟩) else started⟩ := by
  have here : w < ({ s with links := s.links.push ⟨name, u, v⟩ } : Store).size := inside
  have same : ∀ x, ({ s with links := s.links.push ⟨name, u, v⟩ } : Store).vertexAt x = s.vertexAt x := fun _ => rfl
  rw [link, vertexAt_connect (by rw [size_connect]; exact here), vertexAt_connect here, label_connect, same, same, same]
  split <;> split <;> rfl

/-- A new link enters the adjacency of its two ends. -/
theorem link_ofGraph (valid : g.WellFormed) (first : u < g.size) (second : v < g.size)
    (fresh : s(u, v) ∉ g.edgeSet) : (ofGraph g).link name u v = ofGraph (g.link name u v) := by
  have sizes : ((ofGraph g).link name u v).size = g.size := by
    simp only [link, size_connect]
    exact size_ofGraph
  have vertices : ((ofGraph g).link name u v).vertices = (ofGraph (g.link name u v)).vertices := by
    refine vertices_ext (sizes.trans (size_ofGraph (g := g.link name u v)).symm) fun w bound => ?_
    rw [sizes] at bound
    rw [vertexAt_link (bound.trans_eq size_ofGraph.symm), vertexAt_ofGraph bound, vertexAt_ofGraph first,
      vertexAt_ofGraph second, vertexAt_ofGraph (g := g.link name u v) bound,
      Graph.adjacencyOf_link valid first second fresh]
    rfl
  exact congrArg (fun vertices => Store.mk vertices g.labelled g.labelled (g.links.push ⟨name, u, v⟩)) vertices

theorem linkNamed_ofGraph (valid : g.WellFormed) (first : u < g.size) (second : v < g.size)
    (fresh : s(u, v) ∉ g.edgeSet) (named : Except Failure Value) :
    (ofGraph g).linkNamed named u v = (ofGraph (g.linkNamed named u v).1, (g.linkNamed named u v).2) := by
  cases named with
  | ok name =>
    exact Prod.ext (link_ofGraph valid first second fresh) (congrArg Except.ok (edge_ofGraph first second))
  | error failure => rfl

theorem get?_ofGraph (valid : g.WellFormed) (a : Value) :
    (ofGraph g).get? (.label a) = a.asLabel.map g.indexOf? := by
  rw [get?]
  cases a.asLabel with
  | error failure => rfl
  | ok label => exact congrArg Except.ok (Graph.lookup?_labelled valid)

theorem linkTo?_ofGraph (valid : g.WellFormed) (first : u < g.size) (second : v < g.size) :
    (ofGraph g).linkTo? u v = g.linkBetween? u v := by
  rw [linkTo?, vertexAt_ofGraph first, vertexAt_ofGraph second]
  exact Graph.lookup?_adjacencyOf valid second

theorem areLinked_ofGraph (valid : g.WellFormed) :
    (ofGraph g).areLinked (g.indexOf? source) (g.indexOf? destination) = g.isLinked source destination := by
  unfold Graph.isLinked
  cases first : g.indexOf? source with
  | none => rfl
  | some u =>
    cases second : g.indexOf? destination with
    | none => rfl
    | some v =>
      rw [areLinked, linkTo?_ofGraph valid (Graph.indexOf?_spec first).1 (Graph.indexOf?_spec second).1]

/-- The second end is looked up before the first is added. If it was missing then and is there now, the two labels
are the same, and it cannot be added again. -/
theorem ensure_ofGraph_after {middle : Graph} (first : g.Ensures source middle u)
    (hashable : destination.isHashable = true) :
    (ofGraph middle).ensure destination (g.indexOf? destination) =
      if (g.indexOf? destination).isNone ∧ (middle.indexOf? destination).isSome then
        .error (Failure.duplicateVertex destination).written
      else .ok (ofGraph (middle.ensure destination).1, (middle.ensure destination).2) := by
  cases found : g.indexOf? destination with
  | some v =>
    have again := ensure_ofGraph first.valid hashable
    rw [first.indexOf?_mono found] at again
    rw [again]
    rfl
  | none =>
    rw [ensure, addVertex_ofGraph first.valid hashable]
    unfold Graph.ensure
    cases middle.indexOf? destination <;> rfl

/-- Adding an edge to an indexed graph and indexing the graph with the edge come to the same, also when the call
fails. -/
theorem addEdge_ofGraph (valid : g.WellFormed) (source destination name : Value) :
    (ofGraph g).addEdge source destination name =
      (ofGraph (g.addEdge source destination name).1, (g.addEdge source destination name).2) := by
  unfold addEdge Graph.addEdge
  by_cases same : source.equal destination = true
  · rw [if_pos same, if_pos same]
  rw [if_neg same, if_neg same, get?_ofGraph valid, get?_ofGraph valid]
  cases first : source.asLabel with
  | error failure => rfl
  | ok s =>
    cases second : destination.asLabel with
    | error failure => rfl
    | ok d =>
      obtain ⟨start, rfl⟩ := Value.asLabel_eq_ok_iff.mp first
      obtain ⟨stop, rfl⟩ := Value.asLabel_eq_ok_iff.mp second
      by_cases linked : g.isLinked s d = true
      · simp only [Except.map, areLinked_ofGraph valid, linked, ↓reduceIte]
      have origin := valid.ensure s
      have goal := origin.valid.ensure d
      obtain ⟨here, fresh⟩ := origin.unlinked goal valid (Bool.eq_false_iff.mpr linked)
      simp only [Except.map, areLinked_ofGraph valid, linked, ensure_ofGraph valid start,
        ensure_ofGraph_after origin stop, Bool.false_eq_true, ↓reduceIte]
      -- Both sides look up the second end before the first is added, and fail if it has come with the first.
      by_cases again : (g.indexOf? d).isNone = true ∧ ((g.ensure s).1.indexOf? d).isSome = true
      · simp only [if_pos again]
      · have inside := (Graph.indexOf?_spec here).1
        have other := (Graph.indexOf?_spec goal.found).1
        simp only [if_neg again]
        exact linkNamed_ofGraph goal.valid inside other fresh _

end Store

end SteinerTrees
