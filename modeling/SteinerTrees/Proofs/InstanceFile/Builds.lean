import Mathlib
import SteinerTrees.Proofs.InstanceFile.Checked
import SteinerTrees.Proofs.Json.Storable
import SteinerTrees.Proofs.Solver.Failures

/-! # Graphs of loaded instances

The check of a file knows the labels of an instance as a set, and the graph finds them one by one. Both come to the
same: the graph of a loaded instance holds all labels that the check has seen, so that every terminal is a vertex. The
check does not look at loops and repeated edges, and these are all that can still go wrong. -/

namespace SteinerTrees

/-- All labels of the nodes and of the ends of edges equal themselves. -/
def Value.HasReflexiveLabels (problem : Value) : Prop :=
  ∀ nodes edges, problem.Describes nodes edges → ∀ label ∈ nodes ++ edges.flatMap EdgeEntry.ends, label.Reflexive

namespace InstanceFile

variable {files : Files} {path : String} {data problem : Value} {problems values nodes terminals : List Value}
  {edges : List EdgeEntry} {index : Nat} {g : Graph}

/-! ## Files -/

/-- Every instance is what the check made of an element. -/
theorem exists_check_of_checkAll (checked : checkAll index values = .ok problems) (member : problem ∈ problems) :
    ∃ place, ∃ data ∈ values, check place data = .ok problem := by
  induction values generalizing index problems with
  | nil =>
    cases checked
    cases member
  | cons data rest ih =>
    obtain ⟨first, here, checked⟩ := bind_eq_ok_iff.mp checked
    obtain ⟨others, there, same⟩ := bind_eq_ok_iff.mp checked
    cases same
    rcases List.mem_cons.mp member with rfl | member
    · exact ⟨index, data, List.mem_cons_self, here⟩
    · obtain ⟨place, source, among, passed⟩ := ih there member
      exact ⟨place, source, List.mem_cons_of_mem _ among, passed⟩

/-- Every instance of a file was checked. What was read from a file can be written. -/
theorem exists_check_of_load (loaded : load files path = .ok problems) (member : problem ∈ problems) :
    ∃ place data, data.isWritable = true ∧ check place data = .ok problem := by
  unfold load at loaded
  split at loaded
  · obtain ⟨content, -, loaded⟩ := bind_eq_ok_iff.mp loaded
    obtain ⟨data, read, loaded⟩ := bind_eq_ok_iff.mp loaded
    have writable := (Json.storable_of_read read).isWritable
    unfold ofValue at loaded
    split at loaded
    · obtain ⟨place, source, listed, passed⟩ := exists_check_of_checkAll loaded member
      exact ⟨place, source, List.mem_singleton.mp listed ▸ writable, passed⟩
    · obtain ⟨place, source, listed, passed⟩ := exists_check_of_checkAll loaded member
      exact ⟨place, source, Value.isWritable_list_iff.mp writable source listed, passed⟩
    · cases loaded
  · cases loaded

/-- The labels of a checked instance are those of the value that was checked. -/
theorem isWritable_of_check (checked : check index data = .ok problem) (writable : data.isWritable = true)
    (described : problem.Describes nodes edges) :
    ∀ e ∈ edges, ∀ label ∈ e.ends, label.isWritable = true := by
  obtain ⟨entries, _, listing, members, _, result, rfl, -, listed, read, -, -, -, done, rfl⟩ :=
    check_eq_ok_iff.mp checked
  obtain ⟨kept, -⟩ := lookup?_complete done
  have items := Value.isWritable_of_items (Value.isWritable_of_lookup? writable listed) read
  have edges_read : members.mapM EdgeEntry.ofValue = .ok edges := by
    have same := described.edges
    rw [Value.get_dict, kept "edges" (by decide) (by decide) (by decide), listed] at same
    simpa only [Option.getD_some, bind, Except.bind, read] using same
  intro e member label ended
  obtain ⟨entry, among, spelled⟩ := exists_source_of_mapM edges_read member
  obtain ⟨source, target, -⟩ := EdgeEntry.ofValue_eq_ok_iff.mp spelled
  rcases List.mem_pair.mp ended with rfl | rfl
  · exact Value.isWritable_of_field (items entry among) source
  · exact Value.isWritable_of_field (items entry among) target

/-! ## Graphs -/

/-- A terminal of a checked instance is a vertex of its graph. -/
theorem Lists.indexOf?_ne_none (lists : Lists problem nodes edges terminals)
    (traces : Graph.Traces (nodes ++ edges.flatMap EdgeEntry.ends) edges g) :
    ∀ terminal ∈ terminals, g.indexOf? terminal ≠ none := by
  intro terminal member absent
  exact traces.indexOf?_eq_none_iff.mp absent (lists.known terminal member).2

/-- What becomes of an instance that lists nodes, edges and terminals. -/
structure Outcome (problem : Value) (nodes : List Value) (edges : List EdgeEntry) (terminals : List Value) : Prop where
  describes : problem.Describes nodes edges
  listed : problem.field "terminals" >>= Value.items = .ok terminals
  /-- The graph is built exactly if no edge is a loop or has the ends of another. -/
  built_iff : (∃ g, Graph.ofInstance problem = .ok g) ↔ EdgeEntry.Simple edges
  /-- Otherwise the failure is that of the first such edge. -/
  refused : ∀ failure, Graph.ofInstance problem = .error failure → ∃ before e after, edges = before ++ e :: after ∧
    EdgeEntry.Simple before ∧ e.Refused before failure
  /-- The vertices are the first occurrences of the labels. -/
  labels : ∀ g, Graph.ofInstance problem = .ok g →
    g.labels.toList = Value.distinct (nodes ++ edges.flatMap EdgeEntry.ends)
  /-- The links follow the edges, one by one. -/
  links : ∀ g, Graph.ofInstance problem = .ok g → List.Forall₂ g.Follows edges g.links.toList
  /-- Every terminal is a vertex, and no query for the terminals reports a missing one. -/
  terminals : ∀ g, Graph.ofInstance problem = .ok g → (∀ terminal ∈ terminals, ∃ v, g.resolve terminal = .ok v) ∧
    ∀ settings labels, g.solve settings terminals ≠ .error (.terminalsNotFound labels)

/-- If the graph is built, it holds all labels, and so all terminals. -/
theorem Lists.outcome_of_built (lists : Lists problem nodes edges terminals)
    (built : Graph.ofInstance problem = .ok g)
    (traces : Graph.Traces (nodes ++ edges.flatMap EdgeEntry.ends) edges g) :
    Outcome problem nodes edges terminals := by
  have present := lists.indexOf?_ne_none traces
  have hashable := fun terminal member => (lists.known terminal member).1
  have only : ∀ h, Graph.ofInstance problem = .ok h → h = g := fun h again =>
    Except.ok.inj (again.symm.trans built)
  refine ⟨lists.describes, lists.listed, ⟨fun _ => traces.simple, fun _ => ⟨g, built⟩⟩, ?_, ?_, ?_, ?_⟩
  · intro failure failed
    rw [built] at failed
    cases failed
  · exact fun h again => only h again ▸ traces.labels
  · exact fun h again => only h again ▸ traces.links
  · intro h again
    obtain rfl := only h again
    refine ⟨fun terminal member => ?_, Graph.pastLookup_solve hashable present⟩
    obtain ⟨v, found⟩ := Option.ne_none_iff_exists'.mp (present terminal member)
    exact ⟨v, Graph.resolve_of_indexOf? (hashable terminal member) found⟩

/-- If an edge is refused, there is no graph, and nothing else fails. -/
theorem Lists.outcome_of_refused (lists : Lists problem nodes edges terminals) {failure : Failure} {e : EdgeEntry}
    {before after : List EdgeEntry} (failed : Graph.ofInstance problem = .error failure)
    (same : edges = before ++ e :: after) (simple : EdgeEntry.Simple before) (refused : e.Refused before failure) :
    Outcome problem nodes edges terminals := by
  have never : ∀ h, Graph.ofInstance problem ≠ .ok h := fun h built => by
    rw [failed] at built
    cases built
  refine ⟨lists.describes, lists.listed, ⟨?_, fun whole => absurd (same ▸ whole) refused.not_simple⟩, ?_, ?_, ?_, ?_⟩
  · rintro ⟨h, built⟩
    exact absurd built (never h)
  · intro other again
    obtain rfl := Except.error.inj (failed.symm.trans again)
    exact ⟨before, e, after, same, simple, refused⟩
  · exact fun h built => absurd built (never h)
  · exact fun h built => absurd built (never h)
  · exact fun h built => absurd built (never h)

/-- A loaded instance lists nodes, edges and terminals, and its graph is built unless an edge is a loop or is
repeated. -/
theorem outcome_of_load (loaded : load files path = .ok problems) (member : problem ∈ problems)
    (reflexive : problem.HasReflexiveLabels) : ∃ nodes edges terminals, Outcome problem nodes edges terminals := by
  obtain ⟨place, data, writable, checked⟩ := exists_check_of_load loaded member
  obtain ⟨nodes, edges, terminals, lists⟩ := check_spec checked
  have equal := reflexive nodes edges lists.describes
  have proper : ∀ e ∈ edges, e.Proper := fun e member label ended =>
    ⟨lists.ends_hashable e member label ended,
      equal label (List.mem_append_right _ (List.mem_flatMap.mpr ⟨e, member, ended⟩))⟩
  have ends := isWritable_of_check checked writable lists.describes
  refine ⟨nodes, edges, terminals, ?_⟩
  rcases Graph.ofInstance_cases lists.describes lists.nodes_hashable proper
      (fun e member => EdgeEntry.named_of_isWritable (ends e member)) with
    ⟨g, built, traces⟩ | ⟨before, e, after, failure, same, simple, refused, failed⟩
  · exact lists.outcome_of_built built traces
  · have inside : e ∈ edges := same ▸ List.mem_append_right _ List.mem_cons_self
    rw [refused.written_eq (ends e inside)] at failed
    exact lists.outcome_of_refused failed same simple refused

/-- A file of which the nodes and the terminals are the characters of a text. -/
def spelled : Files :=
  .ofTexts [("a",
    "\x7b\"nodes\": \"aba\", \"edges\": [\x7b\"source\": \"a\", \"target\": 1\x7d], \"terminals\": \"b\"\x7d")]

def spelledInstance : Value :=
  .dict [("nodes", .text "aba"), ("edges", .list [.dict [("source", .text "a"), ("target", .int 1)]]),
    ("terminals", .text "b"), ("metadata", Graph.customMetadata 3), ("instance_name", .text "custom_0")]

theorem load_spelled : load spelled "a" = .ok [spelledInstance] := by cbv

theorem reflexive_spelled : spelledInstance.HasReflexiveLabels := by
  intro nodes edges described
  have labels : [.text "a", .text "b", .text "a"] = nodes := Except.ok.inj described.nodes
  have listed : [⟨.text "a", .int 1, .null⟩] = edges := Except.ok.inj described.edges
  subst labels listed
  unfold Value.Reflexive
  decide

theorem outcome_of_load_spelled : load spelled "a" = .ok [spelledInstance] ∧ spelledInstance.HasReflexiveLabels ∧
    ∃ nodes edges terminals, Outcome spelledInstance nodes edges terminals :=
  ⟨load_spelled, reflexive_spelled, outcome_of_load load_spelled List.mem_cons_self reflexive_spelled⟩

end InstanceFile

end SteinerTrees
