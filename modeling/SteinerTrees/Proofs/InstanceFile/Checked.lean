import SteinerTrees.InstanceFile
import SteinerTrees.Proofs.Graph.Listing

/-! # Checked instances

What the check of an instance has looked at before it lets the instance pass: nodes and edges are listed, all labels
can be labels, every edge has two ends, and every terminal is a node or an end. What it fills in touches neither
the nodes nor the edges. -/

namespace SteinerTrees

namespace Value

variable {entries : List (String × Value)} {name other : String} {value default : Value}

theorem lookup?_append_of_ne (differ : other ≠ name) :
    lookup? name (entries ++ [(other, value)]) = lookup? name entries := by
  have missed : [(other, value)].find? (·.1 == name) = none := by
    rw [List.find?_cons_of_neg (by simpa using differ), List.find?_nil]
  rw [lookup?, List.find?_append, missed, Option.or_none, lookup?]

theorem lookup?_setDefault_of_ne (differ : other ≠ name) :
    lookup? name (setDefault other value entries) = lookup? name entries := by
  unfold setDefault
  split
  · rfl
  · exact lookup?_append_of_ne differ

theorem lookup?_setDefault : lookup? name (setDefault name value entries) =
    some ((lookup? name entries).getD value) := by
  unfold setDefault
  cases found : lookup? name entries with
  | some old => exact found
  | none =>
    have missed : entries.find? (·.1 == name) = none := Option.map_eq_none_iff.mp found
    have last : [(name, value)].find? (·.1 == name) = some (name, value) :=
      List.find?_cons_of_pos (beq_self_eq_true name)
    simp only [Option.isSome_none, Bool.false_eq_true, ↓reduceIte]
    rw [lookup?, List.find?_append, missed, Option.none_or, last]
    rfl

theorem field_dict_eq_ok_iff : (dict entries).field name = .ok value ↔ lookup? name entries = some value := by
  rw [field]
  cases lookup? name entries with
  | none => simp
  | some found => simp

theorem get_dict (entries : List (String × Value)) (name : String) (default : Value) :
    (dict entries).get name default = .ok ((lookup? name entries).getD default) := rfl

/-- What has one entry is a dictionary, and has others or their defaults. -/
theorem exists_get_of_field {collection : Value} (read : collection.field name = .ok value) (other : String)
    (default : Value) : ∃ found, collection.get other default = .ok found := by
  cases collection with
  | dict entries => exact ⟨_, rfl⟩
  | _ => cases read

end Value

namespace InstanceFile

variable {data problem nodes : Value} {index : Nat} {entries result : List (String × Value)} {name : String}
  {members known labels terminals : List Value}

/-- What is filled in leaves all other entries as they are. -/
theorem lookup?_complete (completed : complete index entries nodes = .ok result) :
    (∀ name, name ≠ "terminals" → name ≠ "metadata" → name ≠ "instance_name" →
      Value.lookup? name result = Value.lookup? name entries) ∧
    Value.lookup? "terminals" result = some ((Value.lookup? "terminals" entries).getD (.list [])) := by
  -- Only the middle step can fail, so the entries before the name is filled in are split off.
  have described : ∃ middle,
      (∀ name, name ≠ "metadata" → Value.lookup? name middle =
        Value.lookup? name (Value.setDefault "terminals" (.list []) entries)) ∧
      result = Value.setDefault "instance_name" (.text s!"custom_{index}") middle := by
    unfold complete at completed
    simp only at completed
    split at completed
    · cases completed
      exact ⟨_, fun _ _ => rfl, rfl⟩
    · obtain ⟨middle, filled, same⟩ := bind_eq_ok_iff.mp completed
      obtain ⟨size, -, rfl⟩ := map_eq_ok_iff.mp filled
      cases same
      exact ⟨_, fun name differ => Value.lookup?_append_of_ne differ.symm, rfl⟩
  obtain ⟨middle, others, rfl⟩ := described
  constructor
  · intro name terminals metadata called
    rw [Value.lookup?_setDefault_of_ne called.symm, others name metadata,
      Value.lookup?_setDefault_of_ne terminals.symm]
  · rw [Value.lookup?_setDefault_of_ne (by decide), others _ (by decide), Value.lookup?_setDefault]

/-- No edge lacks an end. -/
theorem findIdx?_eq_none_iff : members.findIdx? (fun edge => !hasEnds edge) = none ↔
    ∀ edge ∈ members, hasEnds edge = true := by
  simp only [List.findIdx?_eq_none_iff, Bool.not_eq_false']

/-- An instance passes if all that is looked at is in order. -/
theorem check_eq_ok_iff : check index data = .ok problem ↔ ∃ entries nodes edges members known result,
    data = .dict entries ∧ Value.lookup? "nodes" entries = some nodes ∧ Value.lookup? "edges" entries = some edges ∧
    edges.items = .ok members ∧ (∀ edge ∈ members, hasEnds edge = true) ∧ knownLabels nodes members = .ok known ∧
    strayTerminals known ((Value.lookup? "terminals" entries).getD (.list [])) = .ok [] ∧
    complete index entries nodes = .ok result ∧ problem = .dict result := by
  constructor
  · intro checked
    unfold check at checked
    split at checked
    next entries =>
      split at checked
      next nodes found =>
        split at checked
        next edges listed =>
          obtain ⟨members, read, checked⟩ := bind_eq_ok_iff.mp checked
          simp only at checked
          split at checked
          · cases checked
          next whole =>
            obtain ⟨known, labels, checked⟩ := bind_eq_ok_iff.mp checked
            obtain ⟨strays, stray, checked⟩ := bind_eq_ok_iff.mp checked
            split at checked
            · obtain ⟨result, done, rfl⟩ := map_eq_ok_iff.mp checked
              refine ⟨entries, nodes, edges, members, known, result, rfl, found, listed, read, ?_, labels, stray, done,
                rfl⟩
              exact findIdx?_eq_none_iff.mp (Option.eq_none_iff_forall_not_mem.mpr whole)
            · cases checked
        next => cases checked
      next => cases checked
    next => cases checked
  · rintro ⟨entries, nodes, edges, members, known, result, rfl, found, listed, read, whole, labels, stray, done, rfl⟩
    simp only [check, found, listed, read, findIdx?_eq_none_iff.mpr whole, labels, stray, done, bind, Except.bind]
    rfl

/-! ## The labels -/

theorem strayTerminals_eq_nil_iff {listing : Value} : strayTerminals known listing = .ok [] ↔
    ∃ terminals, listing.items = .ok terminals ∧
      ∀ terminal ∈ terminals, terminal.isHashable = true ∧ terminal.key ∈ known.map Value.key := by
  rw [strayTerminals, bind_eq_ok_iff]
  simp only [bind_eq_ok_iff, Value.mapM_asLabel_eq_ok_iff, pure_eq_ok_iff]
  constructor
  · rintro ⟨_, read, terminals, ⟨hashable, rfl⟩, nothing⟩
    refine ⟨terminals, read, fun terminal member => ⟨hashable terminal member, ?_⟩⟩
    have kept := List.filter_eq_nil_iff.mp nothing.symm terminal member
    rwa [Bool.not_eq_true, Bool.not_eq_false', Value.isIn_iff] at kept
  · rintro ⟨terminals, read, known⟩
    refine ⟨terminals, read, terminals, ⟨fun terminal member => (known terminal member).1, rfl⟩, ?_⟩
    refine (List.filter_eq_nil_iff.mpr fun terminal member => ?_).symm
    rw [Bool.not_eq_true, Bool.not_eq_false', Value.isIn_iff]
    exact (known terminal member).2

theorem ends_cons_eq_ok_iff {edge : Value} {rest : List Value} : ends name (edge :: rest) = .ok labels ↔
    ∃ label others, edge.field name = .ok label ∧ label.isHashable = true ∧ ends name rest = .ok others ∧
      labels = label :: others := by
  simp only [ends, mapM_cons_eq_ok_iff, bind_eq_ok_iff, Value.asLabel_eq_ok_iff]
  constructor
  · rintro ⟨label, others, ⟨_, read, hashable, rfl⟩, rest, rfl⟩
    exact ⟨label, others, read, hashable, rest, rfl⟩
  · rintro ⟨label, others, read, hashable, rest, rfl⟩
    exact ⟨label, others, ⟨label, read, hashable, rfl⟩, rest, rfl⟩

/-- Edges of which both ends can be read as labels are read. -/
theorem exists_edges {starts stops : List Value} (sources : ends "source" members = .ok starts)
    (targets : ends "target" members = .ok stops) :
    ∃ edges, members.mapM EdgeEntry.ofValue = .ok edges ∧ starts = edges.map (·.source) ∧
      stops = edges.map (·.target) ∧ ∀ e ∈ edges, ∀ label ∈ e.ends, label.isHashable = true := by
  induction members generalizing starts stops with
  | nil =>
    cases sources
    cases targets
    exact ⟨[], rfl, rfl, rfl, fun _ member => absurd member List.not_mem_nil⟩
  | cons entry rest ih =>
    obtain ⟨start, starts, here, origin, sources_rest, rfl⟩ := ends_cons_eq_ok_iff.mp sources
    obtain ⟨stop, stops, there, goal, targets_rest, rfl⟩ := ends_cons_eq_ok_iff.mp targets
    obtain ⟨edges, read, rfl, rfl, hashable⟩ := ih sources_rest targets_rest
    obtain ⟨name, called⟩ := Value.exists_get_of_field here "name" .null
    have described : EdgeEntry.ofValue entry = .ok ⟨start, stop, name⟩ :=
      EdgeEntry.ofValue_eq_ok_iff.mpr ⟨here, there, called⟩
    refine ⟨⟨start, stop, name⟩ :: edges, mapM_cons_eq_ok_iff.mpr ⟨_, _, described, read, rfl⟩, rfl, rfl, ?_⟩
    · intro e member label ended
      rcases List.mem_cons.mp member with rfl | member
      · rcases List.mem_pair.mp ended with rfl | rfl
        · exact origin
        · exact goal
      · exact hashable e member label ended

/-- The labels that are known as a set are those that are listed. -/
theorem key_mem_known_iff {edges : List EdgeEntry} {a : Value} :
    a.key ∈ (Value.distinct labels ++ edges.map (·.source) ++ edges.map (·.target)).map Value.key ↔
      a.key ∈ (labels ++ edges.flatMap EdgeEntry.ends).map Value.key := by
  have ended : a.key ∈ (edges.flatMap EdgeEntry.ends).map Value.key ↔
      a.key ∈ (edges.map (·.source)).map Value.key ∨ a.key ∈ (edges.map (·.target)).map Value.key := by
    simp only [List.map_flatMap, List.mem_flatMap, EdgeEntry.ends, List.map_cons, List.map_nil, List.mem_pair,
      and_or_left, exists_or, List.map_map, List.mem_map, Function.comp_apply, @eq_comm _ a.key]
  rw [List.map_append, List.map_append, List.map_append, List.mem_append, List.mem_append, List.mem_append,
    Value.key_mem_distinct_iff, ended, or_assoc]

/-- A checked instance lists nodes, edges and terminals. All are labels, and each terminal is a node or an end. -/
structure Lists (problem : Value) (nodes : List Value) (edges : List EdgeEntry) (terminals : List Value) : Prop where
  describes : problem.Describes nodes edges
  listed : problem.field "terminals" >>= Value.items = .ok terminals
  nodes_hashable : ∀ label ∈ nodes, label.isHashable = true
  ends_hashable : ∀ e ∈ edges, ∀ label ∈ e.ends, label.isHashable = true
  known : ∀ terminal ∈ terminals, terminal.isHashable = true ∧
    terminal.key ∈ (nodes ++ edges.flatMap EdgeEntry.ends).map Value.key

theorem check_spec (checked : check index data = .ok problem) :
    ∃ nodes edges terminals, Lists problem nodes edges terminals := by
  obtain ⟨entries, listing, collection, members, known, result, rfl, found, listed, read, -, labels, stray, done,
    rfl⟩ := check_eq_ok_iff.mp checked
  obtain ⟨kept, filled⟩ := lookup?_complete done
  obtain ⟨nodes, named, labels⟩ := bind_eq_ok_iff.mp labels
  obtain ⟨starts, sources, labels⟩ := bind_eq_ok_iff.mp labels
  obtain ⟨stops, targets, labels⟩ := bind_eq_ok_iff.mp labels
  cases labels
  obtain ⟨vertices, items, hashable, rfl⟩ := Value.asSet_eq_ok_iff.mp named
  obtain ⟨edges, described, rfl, rfl, ends⟩ := exists_edges sources targets
  obtain ⟨terminals, taken, inside⟩ := strayTerminals_eq_nil_iff.mp stray
  refine ⟨vertices, edges, terminals, ⟨?_, ?_⟩, ?_, hashable, ends, ?_⟩
  · rw [Value.get_dict, kept "nodes" (by decide) (by decide) (by decide), found]
    exact items
  · rw [Value.get_dict, kept "edges" (by decide) (by decide) (by decide), listed]
    simp only [Option.getD_some, bind, Except.bind, read, described]
  · rw [Value.field_dict_eq_ok_iff.mpr filled]
    exact taken
  · exact fun terminal member => ⟨(inside terminal member).1, key_mem_known_iff.mp (inside terminal member).2⟩

theorem hasEnds_of_fields {edge source target : Value} (here : edge.field "source" = .ok source)
    (there : edge.field "target" = .ok target) : hasEnds edge = true := by
  cases edge with
  | dict entries =>
    rw [Value.field_dict_eq_ok_iff] at here there
    rw [hasEnds, here, there]
    rfl
  | _ => cases here

/-- Both ends of edges that were read can be read. -/
theorem ends_of_edges {edges : List EdgeEntry} (read : members.mapM EdgeEntry.ofValue = .ok edges)
    (hashable : ∀ e ∈ edges, ∀ label ∈ e.ends, label.isHashable = true) :
    (∀ edge ∈ members, hasEnds edge = true) ∧ ends "source" members = .ok (edges.map (·.source)) ∧
      ends "target" members = .ok (edges.map (·.target)) := by
  induction members generalizing edges with
  | nil =>
    cases read
    exact ⟨fun _ member => absurd member List.not_mem_nil, rfl, rfl⟩
  | cons entry rest ih =>
    obtain ⟨e, edges, first, others, rfl⟩ := mapM_cons_eq_ok_iff.mp read
    obtain ⟨here, there, -⟩ := EdgeEntry.ofValue_eq_ok_iff.mp first
    obtain ⟨whole, sources, targets⟩ := ih others fun e member => hashable e (List.mem_cons_of_mem _ member)
    have proper := hashable e List.mem_cons_self
    refine ⟨List.forall_mem_cons.mpr ⟨hasEnds_of_fields here there, whole⟩, ?_, ?_⟩
    · exact ends_cons_eq_ok_iff.mpr ⟨_, _, here, proper _ List.mem_cons_self, sources, rfl⟩
    · exact ends_cons_eq_ok_iff.mpr ⟨_, _, there, proper _ (List.mem_cons_of_mem _ List.mem_cons_self), targets, rfl⟩

/-- An instance that lists nodes, edges and terminals passes with what is filled in. -/
theorem check_of_complete {edges : List EdgeEntry} (lists : Lists (.dict entries) labels edges terminals)
    (whole : ∀ name ∈ ["edges", "terminals"], (Value.lookup? name entries).isSome)
    (found : Value.lookup? "nodes" entries = some nodes) (done : complete index entries nodes = .ok result) :
    check index (.dict entries) = .ok (.dict result) := by
  obtain ⟨collection, listed⟩ := Option.isSome_iff_exists.mp (whole "edges" (by decide))
  obtain ⟨listing, ending⟩ := Option.isSome_iff_exists.mp (whole "terminals" (by decide))
  have items : nodes.items = .ok labels := by
    have read := lists.describes.nodes
    rwa [Value.get_dict, found] at read
  obtain ⟨members, taken, read⟩ : ∃ members, collection.items = .ok members ∧
      members.mapM EdgeEntry.ofValue = .ok edges := by
    have read := lists.describes.edges
    rw [Value.get_dict, listed] at read
    exact bind_eq_ok_iff.mp read
  have stops : listing.items = .ok terminals := by
    have read := lists.listed
    rwa [Value.field_dict_eq_ok_iff.mpr ending] at read
  obtain ⟨ended, sources, targets⟩ := ends_of_edges read lists.ends_hashable
  refine check_eq_ok_iff.mpr ⟨entries, nodes, collection, members,
    Value.distinct labels ++ edges.map (·.source) ++ edges.map (·.target), result, rfl, found, listed, taken, ended,
    ?_, ?_, done, rfl⟩
  · have known : nodes.asSet = .ok (Value.distinct labels) :=
      Value.asSet_eq_ok_iff.mpr ⟨labels, items, lists.nodes_hashable, rfl⟩
    rw [knownLabels, known, sources, targets]
    rfl
  · rw [ending]
    exact strayTerminals_eq_nil_iff.mpr ⟨terminals, stops, fun terminal member =>
      ⟨(lists.known terminal member).1, key_mem_known_iff.mpr (lists.known terminal member).2⟩⟩

/-- An instance that lists nodes, edges and terminals and lacks no entry passes as it is. -/
theorem check_of_lists {edges : List EdgeEntry} (lists : Lists (.dict entries) labels edges terminals)
    (whole : ∀ name ∈ ["nodes", "edges", "terminals", "metadata", "instance_name"],
      (Value.lookup? name entries).isSome) (index : Nat) :
    check index (.dict entries) = .ok (.dict entries) := by
  obtain ⟨nodes, found⟩ := Option.isSome_iff_exists.mp (whole "nodes" (by decide))
  obtain ⟨description, described⟩ := Option.isSome_iff_exists.mp (whole "metadata" (by decide))
  refine check_of_complete lists (fun name member => whole name ?_) found ?_
  · exact List.Sublist.subset (by decide) member
  · have filled : Value.setDefault "terminals" (.list []) entries = entries := if_pos (whole _ (by decide))
    rw [complete, filled, described]
    exact congrArg Except.ok (if_pos (whole "instance_name" (by decide)))

end InstanceFile

end SteinerTrees
