import SteinerTrees.Graph.Instance
import SteinerTrees.Proofs.Graph.WellFormed

/-! # Built graphs

A graph is built by calls that add a vertex or an edge to the empty graph. What a call to add an edge can do is
said once, by `addEdge_cases`; from it every built graph is well-formed. A link may lead from a vertex to
itself only if its label does not equal itself. -/

namespace SteinerTrees.Graph

variable {g result : Graph} {a b label source destination name : Value} {u v : Nat}

/-- The graphs that calls build from the empty one. A call that fails leaves behind what it leaves behind. -/
inductive Built : Graph → Prop
  | empty : Built Graph.empty
  | addVertex {g result : Graph} {label : Value} : Built g → g.addVertex label = .ok result → Built result
  | addEdge {g : Graph} (source destination name : Value) :
      Built g → Built (g.addEdge source destination name).1

/-- No link leads from a vertex to itself. -/
def Loopless (g : Graph) : Prop := ∀ link ∈ g.links.toList, link.source ≠ link.target

/-! ## Adding a vertex -/

@[simp] theorem size_push : (g.push a).size = g.size + 1 := Array.size_push a

theorem indexOf?_push (same : b.key ≠ a.key) : (g.push a).indexOf? b = g.indexOf? b := by
  have differs : b.same a = false := by rw [Value.same, beq_eq_false_iff_ne]; exact same
  rw [indexOf?, push, Array.findIdx?_push, ← indexOf?]
  cases g.indexOf? b <;> simp [differs]

theorem indexOf?_push_self (absent : g.indexOf? a = none) : (g.push a).indexOf? a = some g.size := by
  have same : a.same a = true := Value.same_iff.mpr rfl
  rw [indexOf?] at absent
  rw [indexOf?, push, Array.findIdx?_push, absent]
  simp [same, size]

theorem WellFormed.push (valid : g.WellFormed) (absent : g.indexOf? a = none) : (g.push a).WellFormed where
  labels := by
    have fresh : a.key ∉ g.labels.toList.map Value.key := by
      intro old
      obtain ⟨other, member, same⟩ := List.mem_map.mp old
      obtain ⟨v, inside, rfl⟩ := Array.mem_iff_getElem.mp (Array.mem_toList_iff.mp member)
      exact indexOf?_eq_none_iff.mp absent v inside (by rw [label_eq inside, same])
    rw [Graph.push, Array.toList_push, List.map_append, List.map_singleton]
    refine List.nodup_append.mpr ⟨valid.labels, List.nodup_singleton _, ?_⟩
    rintro key old other new rfl
    exact fresh (List.mem_singleton.mp new ▸ old)
  ends link member := by
    obtain ⟨first, second⟩ := valid.ends link member
    rw [size_push]
    omega
  pairs := valid.pairs

/-- A graph with a label among its vertices, the same links, and the old vertices where they were. -/
structure Ensures (g : Graph) (a : Value) (result : Graph) (v : Nat) : Prop where
  valid : result.WellFormed
  grows : g.size ≤ result.size
  links : result.links = g.links
  found : result.indexOf? a = some v
  others : ∀ b : Value, b.key ≠ a.key → result.indexOf? b = g.indexOf? b
  kept : ∀ w, g.indexOf? a = some w → v = w
  fresh : g.indexOf? a = none → v = g.size

theorem WellFormed.ensure (valid : g.WellFormed) (a : Value) : g.Ensures a (g.ensure a).1 (g.ensure a).2 := by
  unfold Graph.ensure
  cases found : g.indexOf? a with
  | some w =>
    exact ⟨valid, le_rfl, rfl, found, fun _ _ => rfl, fun _ same => Option.some.inj (found.symm.trans same),
      fun absent => absurd (found.symm.trans absent) (Option.some_ne_none w)⟩
  | none =>
    exact ⟨valid.push found, by simp, rfl, indexOf?_push_self found, fun _ differs => indexOf?_push differs,
      fun w other => absurd (found.symm.trans other) (Option.some_ne_none w).symm, fun _ => rfl⟩

/-- What holds of all labels still does if it holds of the one that is added. -/
theorem forall_labels_ensure {p : Value → Prop} (all : ∀ label ∈ g.labels.toList, p label) (holds : p a) :
    ∀ label ∈ (g.ensure a).1.labels.toList, p label := by
  unfold Graph.ensure
  cases g.indexOf? a with
  | some v => exact all
  | none =>
    intro label member
    rw [Graph.push, Array.toList_push] at member
    rcases List.mem_append.mp member with old | new
    · exact all label old
    · rwa [List.mem_singleton.mp new]

/-- Nodes are added if the first can be a label and the others are added after it. -/
theorem addNodes_cons_eq_ok_iff {rest : List Value} : g.addNodes (label :: rest) = .ok result ↔
    label.isHashable = true ∧ (g.ensure label).1.addNodes rest = .ok result := by
  have ensured : (if (g.indexOf? label).isSome then g else g.push label) = (g.ensure label).1 := by
    unfold ensure
    cases g.indexOf? label <;> rfl
  rw [addNodes, ← ensured]
  cases read : label.asLabel with
  | error failure =>
    constructor
    · intro failed
      cases failed
    · rintro ⟨hashable, -⟩
      rw [Value.asLabel_of_isHashable hashable] at read
      cases read
  | ok same =>
    obtain ⟨hashable, rfl⟩ := Value.asLabel_eq_ok_iff.mp read
    exact (and_iff_right hashable).symm

theorem WellFormed.addNodes {labels : List Value} (valid : g.WellFormed) (added : g.addNodes labels = .ok result) :
    result.WellFormed := by
  induction labels generalizing g with
  | nil =>
    cases added
    exact valid
  | cons label rest ih => exact ih (valid.ensure label).valid (addNodes_cons_eq_ok_iff.mp added).2

/-! ## Adding an edge -/

theorem mem_links_link {other : Link} (member : other ∈ (g.link name u v).links.toList) :
    other ∈ g.links.toList ∨ other = ⟨name, u, v⟩ := by
  rw [Graph.link, Array.toList_push] at member
  exact (List.mem_append.mp member).imp id List.mem_singleton.mp

theorem WellFormed.link (valid : g.WellFormed) (first : u < g.size) (second : v < g.size)
    (fresh : s(u, v) ∉ g.edgeSet) :
    (g.link name u v).WellFormed where
  labels := valid.labels
  ends link member := by
    rcases mem_links_link member with old | rfl
    · exact valid.ends link old
    · exact ⟨first, second⟩
  pairs := by
    rw [Graph.pairs, Graph.link, Array.toList_push, List.map_append, List.map_singleton]
    refine List.nodup_append.mpr ⟨valid.pairs, List.nodup_singleton _, ?_⟩
    rintro pair old other new rfl
    rw [List.mem_singleton.mp new] at old
    exact fresh (List.mem_toFinset.mpr old)

@[simp] theorem edgeSet_link : (g.link name u v).edgeSet = insert s(u, v) g.edgeSet := by
  rw [edgeSet, Graph.pairs, Graph.link, Array.toList_push, List.map_append, List.toFinset_append,
    Finset.union_comm]
  rfl

theorem isLinked_eq_false_iff : g.isLinked a b = false ↔
    ∀ u v, g.indexOf? a = some u → g.indexOf? b = some v → s(u, v) ∉ g.edgeSet := by
  unfold isLinked
  cases g.indexOf? a with
  | none => simp
  | some u =>
    cases g.indexOf? b with
    | none => simp
    | some v => simp [linkBetween?_eq_none_iff]

/-- A link is made if it has a name, and otherwise nothing changes. -/
theorem linkNamed_cases (g : Graph) (named : Except Failure Value) (u v : Nat) :
    (∃ name, named = .ok name ∧ g.linkNamed named u v = (g.link name u v, .ok ⟨name, g.label u, g.label v⟩)) ∨
    (∃ failure, named = .error failure ∧ g.linkNamed named u v = (g, .error failure)) := by
  cases named with
  | ok name => exact .inl ⟨name, rfl, rfl⟩
  | error failure => exact .inr ⟨failure, rfl, rfl⟩

/-- A linked graph has the labels that it had. -/
@[simp] theorem labels_linkNamed (named : Except Failure Value) : (g.linkNamed named u v).1.labels = g.labels := by
  cases named <;> rfl

/-- A label that is a vertex only after another one was added is that one. -/
theorem key_eq_of_ensure {a b : Value} (absent : g.indexOf? b = none)
    (present : ((g.ensure a).1.indexOf? b).isSome = true) :
    a.key = b.key ∧ g.indexOf? a = none ∧ g.ensure a = (g.push a, g.size) := by
  cases found : g.indexOf? a with
  | some w =>
    rw [ensure, found, absent] at present
    cases present
  | none =>
    have pushed : g.ensure a = (g.push a, g.size) := by rw [ensure, found]
    refine ⟨?_, rfl, pushed⟩
    by_contra differ
    rw [pushed, indexOf?_push (Ne.symm differ), absent] at present
    cases present

/-- What a call to add an edge can do: fail and change nothing, fail after adding the source, or add what is
missing of the two vertices and, if it has a name, one link between them. Equal labels get that far only if they do
not equal themselves. -/
theorem addEdge_cases (g : Graph) (source destination name : Value) :
    (∃ failure, g.addEdge source destination name = (g, .error failure)) ∨
    (∃ failure, source.equal destination = false ∧ source.key = destination.key ∧ g.indexOf? source = none ∧
      g.addEdge source destination name = (g.push source, .error failure)) ∨
    (source.equal destination = false ∧ g.isLinked source destination = false ∧
      source.isHashable = true ∧ destination.isHashable = true ∧
      g.addEdge source destination name =
        ((g.ensure source).1.ensure destination).1.linkNamed (nameOf source destination name) (g.ensure source).2
          ((g.ensure source).1.ensure destination).2) := by
  unfold addEdge
  by_cases same : source.equal destination = true
  · exact .inl ⟨_, by rw [if_pos same]⟩
  rw [if_neg same]
  rw [Bool.not_eq_true] at same
  cases first : source.asLabel with
  | error failure => exact .inl ⟨failure, rfl⟩
  | ok s =>
    cases second : destination.asLabel with
    | error failure => exact .inl ⟨failure, rfl⟩
    | ok d =>
      by_cases linked : g.isLinked source destination = true
      · exact .inl ⟨(Failure.duplicateEdge source destination).written, by simp only [if_pos linked]⟩
      by_cases added : (g.indexOf? destination).isNone = true ∧
        ((g.ensure source).1.indexOf? destination).isSome = true
      · obtain ⟨absent, present⟩ := added
        rw [Option.isNone_iff_eq_none] at absent
        obtain ⟨keys, missing, pushed⟩ := key_eq_of_ensure absent present
        refine .inr (.inl ⟨(Failure.duplicateVertex destination).written, same, keys, missing, ?_⟩)
        rw [pushed] at present
        simp only [if_neg linked, absent, Option.isNone_none, pushed, present, and_self, ↓reduceIte]
      · refine .inr (.inr ⟨same, Bool.eq_false_iff.mpr linked, (Value.asLabel_eq_ok_iff.mp first).1,
          (Value.asLabel_eq_ok_iff.mp second).1, ?_⟩)
        simp only [if_neg linked, if_neg added]

/-- The two vertices of a new link exist and were not linked. -/
theorem Ensures.unlinked {middle : Graph} (first : g.Ensures source middle u)
    (second : middle.Ensures destination result v)
    (valid : g.WellFormed) (unlinked : g.isLinked source destination = false) :
    result.indexOf? source = some u ∧ s(u, v) ∉ result.edgeSet := by
  have edges : result.edgeSet = g.edgeSet := by
    simp only [edgeSet, Graph.pairs, second.links, first.links]
  by_cases same : source.key = destination.key
  · have stop : middle.indexOf? destination = some u := indexOf?_congr same ▸ first.found
    obtain rfl := second.kept u stop
    refine ⟨indexOf?_congr same ▸ second.found, ?_⟩
    rw [edges]
    intro edge
    cases source? : g.indexOf? source with
    | none =>
      have inside := (valid.lt_size edge).1
      rw [first.fresh source?] at inside
      exact lt_irrefl _ inside
    | some w =>
      obtain rfl := first.kept w source?
      exact isLinked_eq_false_iff.mp unlinked _ _ source? (indexOf?_congr same ▸ source?) edge
  · refine ⟨(second.others source same).trans first.found, ?_⟩
    have stop : middle.indexOf? destination = g.indexOf? destination :=
      first.others destination (Ne.symm same)
    rw [edges]
    intro edge
    obtain ⟨inside, other⟩ := valid.lt_size edge
    cases source? : g.indexOf? source with
    | none =>
      rw [first.fresh source?] at inside
      exact lt_irrefl _ inside
    | some w =>
      obtain rfl := first.kept w source?
      cases destination? : g.indexOf? destination with
      | some w =>
        obtain rfl := second.kept w (stop.trans destination?)
        exact isLinked_eq_false_iff.mp unlinked _ _ source? destination? edge
      | none =>
        have outside : v = middle.size := second.fresh (stop.trans destination?)
        have grows := first.grows
        omega

theorem WellFormed.linkNamed (valid : g.WellFormed) (first : u < g.size) (second : v < g.size)
    (fresh : s(u, v) ∉ g.edgeSet) (named : Except Failure Value) : (g.linkNamed named u v).1.WellFormed := by
  rcases linkNamed_cases g named u v with ⟨name, -, same⟩ | ⟨failure, -, same⟩
  · rw [same]
    exact valid.link first second fresh
  · rw [same]
    exact valid

theorem WellFormed.addEdge (valid : g.WellFormed) (source destination name : Value) :
    (g.addEdge source destination name).1.WellFormed := by
  rcases addEdge_cases g source destination name with
    ⟨failure, same⟩ | ⟨failure, -, -, absent, same⟩ | ⟨-, unlinked, -, -, same⟩
  · rw [same]
    exact valid
  · rw [same]
    exact valid.push absent
  · rw [same]
    have first := valid.ensure source
    have second := first.valid.ensure destination
    obtain ⟨start, fresh⟩ := first.unlinked second valid unlinked
    exact second.valid.linkNamed (indexOf?_spec start).1 (indexOf?_spec second.found).1 fresh _

/-- Labels that equal themselves make no loops. -/
theorem Loopless.addEdge (loopless : g.Loopless) (valid : g.WellFormed) (reflexive : source.Reflexive)
    (destination name : Value) : (g.addEdge source destination name).1.Loopless := by
  rcases addEdge_cases g source destination name with
    ⟨failure, same⟩ | ⟨failure, -, -, -, same⟩ | ⟨differ, unlinked, -, -, same⟩
  · rw [same]
    exact loopless
  · rw [same]
    exact loopless
  · have first := valid.ensure source
    have second := first.valid.ensure destination
    have start := (first.unlinked second valid unlinked).1
    have old : ((g.ensure source).1.ensure destination).1.Loopless := by
      rw [Loopless, second.links, first.links]
      exact loopless
    rw [same]
    rcases linkNamed_cases ((g.ensure source).1.ensure destination).1 (nameOf source destination name)
      (g.ensure source).2 ((g.ensure source).1.ensure destination).2 with ⟨named, -, linked⟩ | ⟨failure, -, linked⟩
    · rw [linked]
      intro link member
      rcases mem_links_link member with earlier | rfl
      · exact old link earlier
      · intro loop
        have vertices : (g.ensure source).2 = ((g.ensure source).1.ensure destination).2 := loop
        have keys : source.key ≠ destination.key := by
          rw [Ne, ← Value.equal_iff reflexive, differ]
          exact Bool.false_ne_true
        exact keys ((indexOf?_spec start).2.symm.trans (vertices ▸ (indexOf?_spec second.found).2))
    · rw [linked]
      exact old

theorem WellFormed.addVertex (valid : g.WellFormed) (added : g.addVertex label = .ok result) :
    result.WellFormed ∧ result.links = g.links := by
  cases read : label.asLabel with
  | error failure => simp [Graph.addVertex, read, bind, Except.bind] at added
  | ok same =>
    obtain rfl := (Value.asLabel_eq_ok_iff.mp read).2
    cases found : g.indexOf? same with
    | some v =>
      simp [Graph.addVertex, read, found, bind, Except.bind, throw, throwThe, MonadExceptOf.throw] at added
    | none =>
      simp only [Graph.addVertex, read, found, bind, Except.bind, Option.isSome_none, Bool.false_eq_true,
        ↓reduceIte, pure, Except.pure, Except.ok.injEq] at added
      exact added ▸ ⟨valid.push found, rfl⟩

theorem WellFormed.empty : Graph.empty.WellFormed where
  labels := List.nodup_nil
  ends _ member := absurd member List.not_mem_nil
  pairs := List.nodup_nil

/-- Every built graph is well-formed. -/
theorem Built.wellFormed (built : g.Built) : g.WellFormed := by
  induction built with
  | empty => exact .empty
  | addVertex _ added ih => exact (ih.addVertex added).1
  | addEdge source destination name _ ih => exact ih.addEdge source destination name

/-! ## An example

Four terminals hang on the two ends of a bridge, so that a minimum tree of them has five edges. The vertex in front is
on no such tree. The paths from the terminals to an end of the bridge have six edges, as two of them cross it. -/

def bridgedEdges : List (String × String) :=
  [("x", "a"), ("a", "b"), ("t1", "a"), ("t2", "a"), ("t3", "b"), ("t4", "b")]

def bridged : Graph :=
  bridgedEdges.foldl (fun g (source, target) => (g.addEdge (.text source) (.text target) .null).1) empty

/-- The terminals of the example. -/
def bridgedTerminals : List Value := [.text "t1", .text "t2", .text "t3", .text "t4"]

theorem Built.foldl_addEdge (built : g.Built) (edges : List (String × String)) :
    (edges.foldl (fun g (source, target) => (g.addEdge (.text source) (.text target) .null).1) g).Built := by
  induction edges generalizing g with
  | nil => exact built
  | cons edge rest ih => exact ih (built.addEdge (.text edge.1) (.text edge.2) .null)

theorem built_bridged : bridged.Built := Built.empty.foldl_addEdge bridgedEdges

theorem named_bridged : ∀ link ∈ bridged.links.toList, link.name.isHashable = true := by decide +kernel

theorem size_bridged : bridged.size = 7 := by decide +kernel

end SteinerTrees.Graph
