import Mathlib.Data.List.Forall2
import SteinerTrees.Graph.Instance
import SteinerTrees.Proofs.Graph.Adding
import SteinerTrees.Proofs.Value.Limits

/-! # Graphs from lists

An instance lists nodes and edges. The graph that is built from proper lists has the first occurrences of all
labels for vertices and one link for each edge, in order. Building fails only at an edge that is a loop or joins
two vertices again, and then at the first such edge. -/

namespace SteinerTrees

/-- An edge as an instance lists it. -/
structure EdgeEntry where
  source : Value
  target : Value
  name : Value

namespace EdgeEntry

/-- The fields of the dictionary of an edge. A name that is missing is `null`. -/
def ofValue (entry : Value) : Except Failure EdgeEntry := do
  return ⟨← entry.field "source", ← entry.field "target", ← entry.get "name" .null⟩

theorem ofValue_eq_ok_iff {entry : Value} {e : EdgeEntry} : ofValue entry = .ok e ↔
    entry.field "source" = .ok e.source ∧ entry.field "target" = .ok e.target ∧
      entry.get "name" .null = .ok e.name := by
  obtain ⟨source, target, name⟩ := e
  simp only [ofValue, bind_eq_ok_iff, pure_eq_ok_iff, EdgeEntry.mk.injEq]
  constructor
  · rintro ⟨_, start, _, stop, _, called, rfl, rfl, rfl⟩
    exact ⟨start, stop, called⟩
  · rintro ⟨start, stop, called⟩
    exact ⟨source, start, target, stop, name, called, rfl, rfl, rfl⟩

def ends (e : EdgeEntry) : List Value := [e.source, e.target]

/-- There is a name for the link that is made. -/
def Named (e : EdgeEntry) : Prop := ∃ name, Graph.nameOf e.source e.target e.name = .ok name

def IsLoop (e : EdgeEntry) : Prop := e.source.equal e.target = true

/-- Two edges have the same two ends, in either direction. -/
def Joins (e f : EdgeEntry) : Prop :=
  e.source.equal f.source = true ∧ e.target.equal f.target = true ∨
    e.source.equal f.target = true ∧ e.target.equal f.source = true

/-- No edge is a loop, and no two edges have the same two ends. -/
def Simple (edges : List EdgeEntry) : Prop :=
  (∀ e ∈ edges, ¬ e.IsLoop) ∧ edges.Pairwise fun e f => ¬ e.Joins f

/-- An edge that cannot follow others, and the cause. -/
def Refused (before : List EdgeEntry) (e : EdgeEntry) (cause : Failure) : Prop :=
  e.IsLoop ∧ cause = .selfLoop e.source ∨
    ¬ e.IsLoop ∧ (∃ f ∈ before, f.Joins e) ∧ cause = .duplicateEdge e.source e.target

/-- Both ends can be labels and equal themselves. -/
def Proper (e : EdgeEntry) : Prop := ∀ label ∈ e.ends, label.isHashable = true ∧ label.Reflexive

variable {e f : EdgeEntry} {before after : List EdgeEntry} {cause : Failure}

/-- Integers can be labels and equal themselves. -/
theorem proper_int (source target : Int) (name : Value) : (EdgeEntry.mk (.int source) (.int target) name).Proper := by
  intro label ended
  rcases List.mem_pair.mp ended with rfl | rfl
  · exact ⟨rfl, rfl⟩
  · exact ⟨rfl, rfl⟩

theorem isLoop_iff (proper : e.Proper) : e.IsLoop ↔ e.source.key = e.target.key :=
  Value.equal_iff (proper e.source List.mem_cons_self).2

theorem joins_iff (proper : e.Proper) : e.Joins f ↔
    e.source.key = f.source.key ∧ e.target.key = f.target.key ∨
      e.source.key = f.target.key ∧ e.target.key = f.source.key := by
  have source := (proper e.source List.mem_cons_self).2
  have target := (proper e.target (List.mem_cons_of_mem _ List.mem_cons_self)).2
  rw [Joins, Value.equal_iff source, Value.equal_iff source, Value.equal_iff target, Value.equal_iff target]

theorem simple_append_singleton : Simple (before ++ [e]) ↔
    Simple before ∧ ¬ e.IsLoop ∧ ∀ f ∈ before, ¬ f.Joins e := by
  simp only [Simple, List.pairwise_append, List.mem_append, List.mem_singleton, or_imp, forall_and, forall_eq,
    List.pairwise_singleton, true_and]
  tauto

theorem Simple.prefix (simple : Simple (before ++ after)) : Simple before :=
  ⟨fun e member => simple.1 e (List.mem_append_left _ member), (List.pairwise_append.mp simple.2).1⟩

/-- Between ends that can be written there is a name. -/
theorem named_of_isWritable (writable : ∀ label ∈ e.ends, label.isWritable = true) : e.Named :=
  Graph.exists_nameOf (writable _ List.mem_cons_self) (writable _ (List.mem_cons_of_mem _ List.mem_cons_self)) e.name

/-- An edge between ends that can be written is refused as it is. -/
theorem Refused.written_eq (refused : e.Refused before cause) (writable : ∀ label ∈ e.ends, label.isWritable = true) :
    cause.written = cause := by
  have source := writable _ List.mem_cons_self
  have target := writable _ (List.mem_cons_of_mem _ List.mem_cons_self)
  rcases refused with ⟨-, rfl⟩ | ⟨-, -, rfl⟩
  · exact Failure.written_single rfl source
  · exact Failure.written_pair rfl source target

/-- With a refused edge, the list is not simple. -/
theorem Refused.not_simple (refused : e.Refused before cause) : ¬ Simple (before ++ e :: after) := by
  rw [← List.singleton_append, ← List.append_assoc]
  intro simple
  obtain ⟨-, loopless, fresh⟩ := simple_append_singleton.mp simple.prefix
  rcases refused with ⟨loop, -⟩ | ⟨-, ⟨f, member, joins⟩, -⟩
  · exact loopless loop
  · exact fresh f member joins

end EdgeEntry

/-! ## Reading the lists -/

/-- The nodes and the edges that an instance lists. -/
structure Value.Describes (problem : Value) (nodes : List Value) (edges : List EdgeEntry) : Prop where
  nodes : problem.get "nodes" (.list []) >>= items = .ok nodes
  edges : problem.get "edges" (.list []) >>= items >>= List.mapM EdgeEntry.ofValue = .ok edges

namespace Graph

variable {g h : Graph} {problem a b : Value} {seen nodes entries : List Value} {link other : Link} {links : List Link}
  {e : EdgeEntry} {done edges rest : List EdgeEntry} {u v : Nat} {name : Value}

/-- Adds edges up to the first that fails. -/
def addEntries (g : Graph) : List EdgeEntry → Except Failure Graph
  | [] => .ok g
  | e :: rest =>
    match g.addEdge e.source e.target e.name with
    | (g, .ok _) => addEntries g rest
    | (_, .error failure) => .error failure

theorem addEdges_eq (read : entries.mapM EdgeEntry.ofValue = .ok edges) :
    g.addEdges entries = g.addEntries edges := by
  induction entries generalizing g edges with
  | nil =>
    cases read
    rfl
  | cons entry others ih =>
    obtain ⟨e, rest, first, listed, rfl⟩ := mapM_cons_eq_ok_iff.mp read
    obtain ⟨start, stop, called⟩ := EdgeEntry.ofValue_eq_ok_iff.mp first
    simp only [addEdges, addEntries, start, stop, called, bind, Except.bind]
    rcases g.addEdge e.source e.target e.name with ⟨next, failure | edge⟩
    · rfl
    · exact ih listed

theorem ofInstance_eq (described : problem.Describes nodes edges) :
    ofInstance problem = empty.addNodes nodes >>= (addEntries · edges) := by
  obtain ⟨listing, read, listed⟩ := bind_eq_ok_iff.mp described.nodes
  obtain ⟨entries, found, taken⟩ := bind_eq_ok_iff.mp described.edges
  obtain ⟨collection, here, members⟩ := bind_eq_ok_iff.mp found
  simp only [ofInstance, read, listed, here, members, bind, Except.bind]
  cases empty.addNodes nodes with
  | error failure => rfl
  | ok g => exact addEdges_eq taken

/-- Indexes are equal if the labels are. -/
theorem index_eq_iff (first : g.indexOf? a = some u) (second : g.indexOf? b = some v) :
    u = v ↔ a.key = b.key := by
  constructor
  · rintro rfl
    exact (indexOf?_spec first).2.symm.trans (indexOf?_spec second).2
  · intro same
    rw [indexOf?_congr same] at first
    exact Option.some.inj (first.symm.trans second)

/-! ## What a graph was built from -/

/-- A link that was made from an edge: it leads from the vertex of the source to that of the target. -/
structure Follows (g : Graph) (e : EdgeEntry) (link : Link) : Prop where
  source : g.indexOf? e.source = some link.source
  target : g.indexOf? e.target = some link.target
  name : nameOf e.source e.target e.name = .ok link.name

/-- Only the labels of a graph tell where a link leads. -/
theorem Follows.of_labels (follows : g.Follows e link) (same : h.labels = g.labels) : h.Follows e link := by
  obtain ⟨source, target, name⟩ := follows
  rw [indexOf?, ← same] at source target
  exact ⟨source, target, name⟩

/-- The link of one more edge. -/
theorem follows_link (related : List.Forall₂ g.Follows done g.links.toList) (start : g.indexOf? e.source = some u)
    (stop : g.indexOf? e.target = some v) (named : nameOf e.source e.target e.name = .ok name) :
    List.Forall₂ (g.link name u v).Follows (done ++ [e]) (g.link name u v).links.toList := by
  have appended : (g.link name u v).links.toList = g.links.toList ++ [⟨name, u, v⟩] := Array.toList_push
  rw [appended]
  exact List.rel_append (related.imp fun _ _ follows => follows.of_labels rfl) (.cons ⟨start, stop, named⟩ .nil)

/-- A graph that was built from some labels and edges: its labels are the first occurrences, and each edge became
one link. -/
structure Traces (seen : List Value) (done : List EdgeEntry) (g : Graph) : Prop where
  valid : g.WellFormed
  labels : g.labels.toList = Value.distinct seen
  links : List.Forall₂ g.Follows done g.links.toList
  proper : ∀ e ∈ done, e.Proper
  simple : EdgeEntry.Simple done

namespace Traces

theorem empty : Traces [] [] Graph.empty where
  valid := .empty
  labels := rfl
  links := .nil
  proper _ member := absurd member List.not_mem_nil
  simple := ⟨fun _ member => absurd member List.not_mem_nil, .nil⟩

/-- A label is missing if it did not occur. -/
theorem indexOf?_eq_none_iff (traces : Traces seen done g) :
    g.indexOf? a = none ↔ a.key ∉ seen.map Value.key := by
  rw [← Value.key_mem_distinct_iff, ← traces.labels, List.mem_map, indexOf?, Array.findIdx?_eq_none_iff]
  simp only [Value.same, beq_eq_false_iff_ne, Array.mem_toList_iff, not_exists, not_and, ne_eq, @eq_comm _ a.key]

theorem ensure (traces : Traces seen done g) (a : Value) : Traces (seen ++ [a]) done (g.ensure a).1 := by
  have ensures := traces.valid.ensure a
  refine ⟨ensures.valid, ?_, ?_, traces.proper, traces.simple⟩
  · rw [Value.distinct_append_singleton, ← traces.labels]
    unfold Graph.ensure
    cases found : g.indexOf? a with
    | none =>
      rw [if_neg (traces.indexOf?_eq_none_iff.mp found)]
      exact Array.toList_push
    | some v =>
      have old : a.key ∈ seen.map Value.key := by
        by_contra fresh
        rw [traces.indexOf?_eq_none_iff.mpr fresh] at found
        cases found
      rw [if_pos old, List.append_nil]
  · rw [ensures.links]
    exact traces.links.imp fun _ _ follows =>
      ⟨ensures.indexOf?_mono follows.source, ensures.indexOf?_mono follows.target, follows.name⟩

theorem addNodes (traces : Traces seen done g) (hashable : ∀ label ∈ nodes, label.isHashable = true) :
    ∃ h, g.addNodes nodes = .ok h ∧ Traces (seen ++ nodes) done h := by
  induction nodes generalizing g seen with
  | nil => exact ⟨g, rfl, by rwa [List.append_nil]⟩
  | cons label rest ih =>
    obtain ⟨h, added, last⟩ :=
      ih (traces.ensure label) fun other member => hashable other (List.mem_cons_of_mem _ member)
    refine ⟨h, addNodes_cons_eq_ok_iff.mpr ⟨hashable label List.mem_cons_self, added⟩, ?_⟩
    rwa [List.append_assoc, List.singleton_append] at last

/-- Two labels are linked if an edge with these ends was added. -/
theorem isLinked_iff (traces : Traces seen done g) :
    g.isLinked e.source e.target = true ↔ ∃ f ∈ done, f.Joins e := by
  constructor
  · intro linked
    rw [← Bool.not_eq_false, isLinked_eq_false_iff] at linked
    push Not at linked
    obtain ⟨u, v, start, stop, edge⟩ := linked
    obtain ⟨link, member, same⟩ := mem_edgeSet_iff.mp edge
    obtain ⟨f, listed, follows⟩ := exists_related traces.links member
    refine ⟨f, listed, (EdgeEntry.joins_iff (traces.proper f listed)).mpr ?_⟩
    rw [← index_eq_iff follows.source start, ← index_eq_iff follows.source stop,
      ← index_eq_iff follows.target start, ← index_eq_iff follows.target stop]
    exact Sym2.eq_iff.mp same
  · rintro ⟨f, listed, joins⟩
    have back : List.Forall₂ (fun link e => g.Follows e link) g.links.toList done := traces.links.flip
    obtain ⟨link, member, follows⟩ := exists_related back listed
    have edge := mem_edgeSet_of_mem member
    rw [← Bool.not_eq_false, isLinked_eq_false_iff]
    intro fresh
    rcases (EdgeEntry.joins_iff (traces.proper f listed)).mp joins with ⟨first, second⟩ | ⟨first, second⟩
    · exact fresh _ _ (indexOf?_congr first ▸ follows.source) (indexOf?_congr second ▸ follows.target) edge
    · exact fresh _ _ (indexOf?_congr second ▸ follows.target) (indexOf?_congr first ▸ follows.source)
        (Sym2.eq_swap ▸ edge)

/-- Every edge that became a link has a name. -/
theorem named (traces : Traces seen done g) (member : e ∈ done) : e.Named := by
  have back : List.Forall₂ (fun link e => g.Follows e link) g.links.toList done := traces.links.flip
  obtain ⟨link, -, follows⟩ := exists_related back member
  exact ⟨link.name, follows.name⟩

/-- An edge that has a name is refused, or it becomes the last link. -/
theorem addEdge (traces : Traces seen done g) (proper : e.Proper) (named : e.Named) :
    (∃ cause, e.Refused done cause ∧ g.addEdge e.source e.target e.name = (g, .error cause.written)) ∨
    ∃ h edge, g.addEdge e.source e.target e.name = (h, .ok edge) ∧ Traces (seen ++ e.ends) (done ++ [e]) h := by
  have start := proper e.source List.mem_cons_self
  have stop := proper e.target (List.mem_cons_of_mem _ List.mem_cons_self)
  by_cases loop : e.IsLoop
  · exact .inl ⟨_, .inl ⟨loop, rfl⟩, addEdge_of_equal loop⟩
  have unequal : e.source.equal e.target = false := Bool.eq_false_iff.mpr loop
  cases linked : g.isLinked e.source e.target with
  | true =>
    have joined := traces.isLinked_iff.mp linked
    exact .inl ⟨_, .inr ⟨loop, joined, rfl⟩, addEdge_of_linked unequal start.1 stop.1 linked⟩
  | false =>
    have differ : e.source.key ≠ e.target.key := mt (EdgeEntry.isLoop_iff proper).mpr loop
    have fresh : ¬ ∃ f ∈ done, f.Joins e := by rw [← traces.isLinked_iff, linked]; exact Bool.false_ne_true
    obtain ⟨name, named⟩ := named
    have added : g.addEdge e.source e.target e.name = _ :=
      addEdge_of_unlinked traces.valid differ start.1 stop.1 linked
    rw [named] at added
    refine .inr ⟨_, _, added, ?_⟩
    have first := traces.valid.ensure e.source
    have second := first.valid.ensure e.target
    obtain ⟨origin, unlinked⟩ := first.unlinked second traces.valid linked
    obtain ⟨valid, labels, links, -, -⟩ := (traces.ensure e.source).ensure e.target
    refine ⟨valid.link (indexOf?_spec origin).1 (indexOf?_spec second.found).1 unlinked, ?_, ?_, ?_, ?_⟩
    · rwa [List.append_assoc] at labels
    · exact follows_link links origin second.found named
    · intro f member
      rcases List.mem_append.mp member with old | new
      · exact traces.proper f old
      · rwa [List.mem_singleton.mp new]
    · exact EdgeEntry.simple_append_singleton.mpr
        ⟨traces.simple, loop, fun f member joins => fresh ⟨f, member, joins⟩⟩

/-- Edges that have names are added one after the other, up to the first that is refused. -/
theorem addEntries (traces : Traces seen done g) (proper : ∀ e ∈ rest, e.Proper) (named : ∀ e ∈ rest, e.Named) :
    (∃ h, g.addEntries rest = .ok h ∧ Traces (seen ++ rest.flatMap EdgeEntry.ends) (done ++ rest) h) ∨
    ∃ before e after cause, rest = before ++ e :: after ∧ EdgeEntry.Simple (done ++ before) ∧
      e.Refused (done ++ before) cause ∧ g.addEntries rest = .error cause.written := by
  -- What was added moves from `rest` to `done`, so the failing edge is found behind all of `done`.
  induction rest generalizing g seen done with
  | nil => exact .inl ⟨g, rfl, by rwa [List.flatMap_nil, List.append_nil, List.append_nil]⟩
  | cons e rest ih =>
    rcases traces.addEdge (proper e List.mem_cons_self) (named e List.mem_cons_self) with
      ⟨cause, refused, failed⟩ | ⟨next, edge, added, traced⟩
    · refine .inr ⟨[], e, rest, cause, rfl, ?_, ?_, ?_⟩
      · rw [List.append_nil]
        exact traces.simple
      · rwa [List.append_nil]
      · rw [Graph.addEntries, failed]
    · have step : g.addEntries (e :: rest) = next.addEntries rest := by rw [Graph.addEntries, added]
      rw [step]
      rcases ih traced (fun other member => proper other (List.mem_cons_of_mem _ member))
        (fun other member => named other (List.mem_cons_of_mem _ member)) with
        ⟨h, others, last⟩ | ⟨before, f, after, cause, same, simple, refused, failed⟩
      · refine .inl ⟨h, others, ?_⟩
        rwa [List.append_assoc, List.append_assoc, List.singleton_append] at last
      · rw [List.append_assoc, List.singleton_append] at simple refused
        exact .inr ⟨e :: before, f, after, cause, by rw [same]; rfl, simple, refused, failed⟩

/-- The labels and the edges determine the graph. -/
theorem unique (first : Traces seen done g) (second : Traces seen done h) : g = h := by
  have labels : g.labels = h.labels := Array.toList_inj.mp (first.labels.trans second.labels.symm)
  have once : Relator.RightUnique h.Follows := by
    intro e link other one two
    have sources := Option.some.inj (one.source.symm.trans two.source)
    have targets := Option.some.inj (one.target.symm.trans two.target)
    have names := Except.ok.inj (one.name.symm.trans two.name)
    cases link
    cases other
    simp only at sources targets names
    rw [sources, targets, names]
  have moved := first.links.imp fun _ _ follows => follows.of_labels labels.symm
  have links : g.links = h.links := Array.toList_inj.mp (List.right_unique_forall₂' once moved second.links)
  cases g
  cases h
  simp only at labels links
  rw [labels, links]

end Traces

/-- A described instance of proper labels and edges that have names is built, or refused for the first edge that is a
loop or joins two vertices again. -/
theorem ofInstance_cases (described : problem.Describes nodes edges)
    (hashable : ∀ label ∈ nodes, label.isHashable = true) (proper : ∀ e ∈ edges, e.Proper)
    (named : ∀ e ∈ edges, e.Named) :
    (∃ g, ofInstance problem = .ok g ∧ Traces (nodes ++ edges.flatMap EdgeEntry.ends) edges g) ∨
    ∃ before e after cause, edges = before ++ e :: after ∧ EdgeEntry.Simple before ∧ e.Refused before cause ∧
      ofInstance problem = .error cause.written := by
  obtain ⟨middle, started, traces⟩ := Traces.empty.addNodes hashable
  have same : ofInstance problem = middle.addEntries edges := by rw [ofInstance_eq described, started]; rfl
  rw [same]
  exact traces.addEntries proper named

/-- A graph is built from every instance that lists what the graph was built from. -/
theorem Traces.ofInstance (traces : Traces (nodes ++ edges.flatMap EdgeEntry.ends) edges g)
    (described : problem.Describes nodes edges) (hashable : ∀ label ∈ nodes, label.isHashable = true) :
    Graph.ofInstance problem = .ok g := by
  rcases ofInstance_cases described hashable traces.proper fun e => traces.named with
    ⟨h, built, again⟩ | ⟨before, e, after, cause, same, -, refused, -⟩
  · rw [built, traces.unique again]
  · exact absurd (same ▸ traces.simple) refused.not_simple

end Graph

end SteinerTrees
