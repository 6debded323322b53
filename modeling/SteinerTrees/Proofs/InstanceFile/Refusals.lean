import Mathlib
import SteinerTrees.Proofs.InstanceFile.Failing

/-! # Refused instances

The check of an instance iterates over nodes, edges and terminals and takes their members for labels, whatever they
are. It reports wrong values, but not values of the wrong type: these fail on their own, and it is known which they
are. In a list the first element that is refused decides. -/

namespace SteinerTrees

namespace Value

variable {value : Value} {labels members : List Value}

/-- What has members: all but null, truth values and numbers. -/
def isCollection : Value → Bool
  | null | bool _ | int _ | float _ => false
  | text _ | tuple _ | list _ | dict _ => true

theorem isCollection_iff : value.isCollection = true ↔ ∃ members, value.items = .ok members := by
  cases value <;> simp [isCollection, items]

/-- A collection whose members can all be labels. -/
def IsLabels (value : Value) : Prop :=
  ∃ members, value.items = .ok members ∧ ∀ member ∈ members, member.isHashable = true

end Value

namespace InstanceFile

variable {files : Files} {path content : String} {data problem nodes listing : Value} {index : Nat}
  {entries : List (String × Value)} {members known values problems : List Value} {failure : Failure}

/-! ## Types -/

/-- The edges of an instance with nodes, all of which have ends. -/
structure HasEdges (entries : List (String × Value)) (nodes : Value) (members : List Value) : Prop where
  nodes : Value.lookup? "nodes" entries = some nodes
  edges : ∃ edges, Value.lookup? "edges" entries = some edges ∧ edges.items = .ok members
  whole : ∀ edge ∈ members, hasEnds edge = true

/-- All that is taken for a label can be one. -/
structure WellTyped (entries : List (String × Value)) (nodes : Value) (members : List Value) : Prop where
  nodes : nodes.IsLabels
  ends : ∀ edge ∈ members, ∀ name ∈ ["source", "target"], ∀ label, edge.field name = .ok label →
    label.isHashable = true
  terminals : ((Value.lookup? "terminals" entries).getD (.list [])).IsLabels

/-- An instance with values of the wrong type: the edges are no collection, or something is taken for a label that
cannot be one. -/
inductive IllTyped : Value → Prop
  | edges {entries : List (String × Value)} {nodes edges : Value} (named : Value.lookup? "nodes" entries = some nodes)
      (listed : Value.lookup? "edges" entries = some edges) (scalar : edges.isCollection = false) :
      IllTyped (.dict entries)
  | labels {entries : List (String × Value)} {nodes : Value} {members : List Value}
      (edges : HasEdges entries nodes members) (untyped : ¬ WellTyped entries nodes members) :
      IllTyped (.dict entries)

/-! ## One instance -/

theorem exists_ends_iff {name : String} (whole : ∀ edge ∈ members, ∃ label, edge.field name = .ok label) :
    (∃ labels, ends name members = .ok labels) ↔
      ∀ edge ∈ members, ∀ label, edge.field name = .ok label → label.isHashable = true := by
  rw [ends, exists_mapM_eq_ok_iff]
  refine forall₂_congr fun edge member => ?_
  obtain ⟨label, found⟩ := whole edge member
  simp only [found, Except.ok.injEq, forall_eq']
  change (∃ found, label.asLabel = .ok found) ↔ _
  simp only [Value.asLabel_eq_ok_iff, exists_and_left, exists_eq, and_true]

theorem exists_knownLabels_iff (whole : ∀ edge ∈ members, hasEnds edge = true) :
    (∃ known, knownLabels nodes members = .ok known) ↔
      nodes.IsLabels ∧ ∀ edge ∈ members, ∀ name ∈ ["source", "target"], ∀ label, edge.field name = .ok label →
        label.isHashable = true := by
  have sources := exists_ends_iff fun edge member => (fields_of_hasEnds (whole edge member)).1
  have targets := exists_ends_iff fun edge member => (fields_of_hasEnds (whole edge member)).2
  have both : (∀ edge ∈ members, ∀ name ∈ ["source", "target"], ∀ label, edge.field name = .ok label →
      label.isHashable = true) ↔ (∃ labels, ends "source" members = .ok labels) ∧
        ∃ labels, ends "target" members = .ok labels := by
    rw [sources, targets, ← forall₂_and]
    simp only [List.forall_mem_cons, List.not_mem_nil, false_imp_iff, implies_true, and_true]
  rw [both]
  simp only [knownLabels, bind_eq_ok_iff, pure_eq_ok_iff, Value.asSet_eq_ok_iff, Value.IsLabels]
  constructor
  · rintro ⟨_, _, ⟨members, read, hashable, -⟩, starts, sources, stops, targets, -⟩
    exact ⟨⟨members, read, hashable⟩, ⟨starts, sources⟩, stops, targets⟩
  · rintro ⟨⟨members, read, hashable⟩, ⟨starts, sources⟩, stops, targets⟩
    exact ⟨_, _, ⟨members, read, hashable, rfl⟩, starts, sources, stops, targets, rfl⟩

theorem exists_strayTerminals_iff : (∃ strays, strayTerminals known listing = .ok strays) ↔ listing.IsLabels := by
  simp only [strayTerminals, bind_eq_ok_iff, Value.mapM_asLabel_eq_ok_iff, pure_eq_ok_iff, Value.IsLabels]
  constructor
  · rintro ⟨_, members, read, _, ⟨hashable, -⟩, -⟩
    exact ⟨members, read, hashable⟩
  · rintro ⟨members, read, hashable⟩
    exact ⟨_, members, read, members, ⟨hashable, rfl⟩, rfl⟩

theorem exists_complete (labels : nodes.IsLabels) (index : Nat) (entries : List (String × Value)) :
    ∃ result, complete index entries nodes = .ok result := by
  obtain ⟨members, read, -⟩ := labels
  unfold complete
  simp only [Value.length_of_items read]
  split <;> exact ⟨_, rfl⟩

/-- The end of the check, which the terminals that are no labels of the instance decide. -/
def conclude (index : Nat) (entries : List (String × Value)) (nodes : Value) : List Value → Except Failure Value
  | [] => .dict <$> complete index entries nodes
  | stray => throw (Failure.strayTerminals index stray).written

/-- What is left of the check of an instance whose edges have ends. -/
theorem HasEdges.check_eq (edges : HasEdges entries nodes members) (index : Nat) :
    check index (.dict entries) = (do
      let known ← knownLabels nodes members
      let strays ← strayTerminals known ((Value.lookup? "terminals" entries).getD (.list []))
      conclude index entries nodes strays) := by
  obtain ⟨named, ⟨listing, listed, read⟩, whole⟩ := edges
  simp only [check, named, listed, read, bind, Except.bind, findIdx?_eq_none_iff.mpr whole]
  rfl

theorem HasEdges.illTyped_iff (edges : HasEdges entries nodes members) :
    IllTyped (.dict entries) ↔ ¬ WellTyped entries nodes members := by
  refine ⟨?_, .labels edges⟩
  obtain ⟨named, ⟨listing, listed, read⟩, -⟩ := edges
  rintro (⟨-, found, scalar⟩ | ⟨other, untyped⟩)
  · cases listed.symm.trans found
    rw [Value.isCollection_iff.mpr ⟨members, read⟩] at scalar
    cases scalar
  · obtain ⟨found, ⟨_, also, items⟩, -⟩ := other
    cases named.symm.trans found
    cases listed.symm.trans also
    cases read.symm.trans items
    exact untyped

theorem HasEdges.check_misuse_iff (edges : HasEdges entries nodes members) :
    (∃ failure, check index (.dict entries) = .error failure ∧ failure.IsMisuse) ↔
      ¬ WellTyped entries nodes members := by
  rw [edges.check_eq index]
  constructor
  · rintro ⟨failure, failed, fault, rfl⟩ typed
    obtain ⟨known, read⟩ := (exists_knownLabels_iff edges.whole).mpr ⟨typed.nodes, typed.ends⟩
    obtain ⟨strays, stray⟩ : ∃ strays, strayTerminals known _ = .ok strays :=
      exists_strayTerminals_iff.mpr typed.terminals
    obtain ⟨result, done⟩ := exists_complete typed.nodes index entries
    have wrong : (Failure.strayTerminals index strays).written.isWrongValue = true := Failure.isWrongValue_written rfl
    simp only [read, stray, bind, Except.bind, conclude, done] at failed
    split at failed
    · cases failed
    · rw [Except.error.inj failed] at wrong
      cases wrong
  · intro untyped
    cases read : knownLabels nodes members with
    | error failure => exact ⟨failure, rfl, failsOnly_knownLabels nodes edges.whole failure read⟩
    | ok known =>
      have terminals := (failsOnly_strayTerminals known ((Value.lookup? "terminals" entries).getD (.list [])))
      obtain ⟨failure, stray, misuse⟩ := terminals.exists_error_iff.mpr fun found =>
        have ⟨nodes, ends⟩ := (exists_knownLabels_iff edges.whole).mp ⟨known, read⟩
        untyped ⟨nodes, ends, exists_strayTerminals_iff.mp found⟩
      refine ⟨failure, ?_, misuse⟩
      simp only [stray, bind, Except.bind]

/-- An instance fails for a value of the wrong type exactly if it has one. -/
theorem check_misuse_iff :
    (∃ failure, check index data = .error failure ∧ failure.IsMisuse) ↔ IllTyped data := by
  -- Wrong values that are found before any label.
  have refused {failure : Failure} (failed : check index data = .error failure) (wrong : failure.isWrongValue = true)
      (typed : ¬ IllTyped data) :
      (∃ failure, check index data = .error failure ∧ failure.IsMisuse) ↔ IllTyped data := by
    refine iff_of_false ?_ typed
    rintro ⟨other, same, misuse⟩
    cases failed.symm.trans same
    cases wrong.symm.trans misuse.not_isWrongValue
  by_cases isDict : ∃ entries, data = .dict entries
  · obtain ⟨entries, rfl⟩ := isDict
    cases named : Value.lookup? "nodes" entries with
    | none =>
      refine refused (by simp only [check, named]; rfl) rfl ?_
      rintro (⟨found, -, -⟩ | ⟨⟨found, -, -⟩, -⟩) <;> cases named.symm.trans found
    | some nodes =>
      cases listed : Value.lookup? "edges" entries with
      | none =>
        refine refused (by simp only [check, named, listed]; rfl) rfl ?_
        rintro (⟨-, found, -⟩ | ⟨⟨-, ⟨_, found, -⟩, -⟩, -⟩) <;> cases listed.symm.trans found
      | some edges =>
        cases read : edges.items with
        | error failure =>
          refine iff_of_true ⟨failure, ?_, edges.failsOnly_items failure read⟩ (.edges named listed ?_)
          · simp only [check, named, listed, read, bind, Except.bind]
          · rw [← Bool.not_eq_true, Value.isCollection_iff, read]
            rintro ⟨_, same⟩
            cases same
        | ok members =>
          cases missed : members.findIdx? fun edge => !hasEnds edge with
          | some position =>
            have failed : check index (.dict entries) = .error (.edgeIncomplete index position) := by
              simp only [check, named, listed, read, bind, Except.bind, missed]
              rfl
            refine refused failed rfl ?_
            rintro (⟨-, found, scalar⟩ | ⟨⟨-, ⟨_, found, items⟩, whole⟩, -⟩)
            · cases listed.symm.trans found
              rw [Value.isCollection_iff.mpr ⟨members, read⟩] at scalar
              cases scalar
            · cases listed.symm.trans found
              cases read.symm.trans items
              cases missed.symm.trans (findIdx?_eq_none_iff.mpr whole)
          | none =>
            have edges : HasEdges entries nodes members :=
              ⟨named, ⟨edges, listed, read⟩, findIdx?_eq_none_iff.mp missed⟩
            rw [edges.illTyped_iff, edges.check_misuse_iff]
  · have failed : check index data = .error (.instanceNotDict index data) := by
      cases data with
      | dict entries => exact absurd ⟨entries, rfl⟩ isDict
      | _ => rfl
    refine refused failed rfl ?_
    rintro (⟨-, -, -⟩ | ⟨-, -⟩) <;> exact isDict ⟨_, rfl⟩

/-! ## Lists -/

/-- The elements of a file: a dictionary is one, and a list holds them. -/
def elements? : Value → Option (List Value)
  | .dict entries => some [.dict entries]
  | .list items => some items
  | _ => none

theorem ofValue_eq (data : Value) :
    ofValue data = ((elements? data).map (checkAll 0)).getD (.error (.notInstances data)) := by
  cases data <;> rfl

/-- Instances are those of elements, of which the first one has an index. -/
def Accepts (index : Nat) (values problems : List Value) : Prop :=
  List.Forall₂ (fun (data, place) problem => check place data = .ok problem) (values.zipIdx index) problems

theorem checkAll_eq_ok_iff : checkAll index values = .ok problems ↔ Accepts index values problems := by
  unfold Accepts
  induction values generalizing index problems with
  | nil =>
    rw [checkAll, pure_eq_ok_iff, List.zipIdx_nil, List.forall₂_nil_left_iff]
  | cons data rest ih =>
    rw [checkAll, bind_eq_ok_iff, List.zipIdx_cons, List.forall₂_cons_left_iff]
    simp only [bind_eq_ok_iff, pure_eq_ok_iff, ih]
    constructor
    · rintro ⟨problem, here, others, there, same⟩
      exact ⟨problem, others, here, there, same⟩
    · rintro ⟨problem, others, here, there, same⟩
      exact ⟨problem, here, others, there, same⟩

/-- A list fails for the first of its elements that is refused. -/
theorem checkAll_eq_error_iff : checkAll index values = .error failure ↔ ∃ before data after,
    values = before ++ data :: after ∧ (∃ problems, Accepts index before problems) ∧
    check (index + before.length) data = .error failure := by
  simp only [← checkAll_eq_ok_iff]
  induction values generalizing index with
  | nil =>
    refine iff_of_false nofun ?_
    rintro ⟨before, data, after, same, -⟩
    cases before <;> cases same
  | cons first rest ih =>
    rw [checkAll]
    cases here : check index first with
    | error other =>
      constructor
      · intro same
        cases same
        exact ⟨[], first, rest, rfl, ⟨[], rfl⟩, here⟩
      · rintro ⟨before, data, after, same, ⟨problems, accepted⟩, refused⟩
        cases before with
        | nil =>
          cases same
          cases here.symm.trans refused
          rfl
        | cons _ _ =>
          cases same
          obtain ⟨problem, passed, -⟩ := bind_eq_ok_iff.mp accepted
          cases here.symm.trans passed
    | ok problem =>
      have next : (do return problem :: (← checkAll (index + 1) rest)) = .error failure ↔
          checkAll (index + 1) rest = .error failure := by
        cases checkAll (index + 1) rest with
        | error other => exact Iff.rfl
        | ok others => exact iff_of_false nofun nofun
      refine next.trans (ih.trans ?_)
      constructor
      · rintro ⟨before, data, after, rfl, ⟨others, accepted⟩, refused⟩
        refine ⟨first :: before, data, after, rfl, ⟨problem :: others, ?_⟩, ?_⟩
        · rw [checkAll, here, accepted]
          rfl
        · rwa [List.length_cons, Nat.add_comm before.length, ← Nat.add_assoc]
      · rintro ⟨before, data, after, same, ⟨problems, accepted⟩, refused⟩
        cases before with
        | nil =>
          cases same
          cases here.symm.trans refused
        | cons _ before =>
          cases same
          obtain ⟨_, -, accepted⟩ := bind_eq_ok_iff.mp accepted
          obtain ⟨others, accepted, -⟩ := bind_eq_ok_iff.mp accepted
          refine ⟨before, data, after, rfl, ⟨others, accepted⟩, ?_⟩
          rwa [List.length_cons, Nat.add_comm before.length, ← Nat.add_assoc] at refused

/-! ## Files -/

/-- Whether the elements of a list are accepted up to one that has values of the wrong type. -/
def FirstIsIllTyped (items : List Value) : Prop :=
  ∃ before data after, items = before ++ data :: after ∧ (∃ problems, Accepts 0 before problems) ∧ IllTyped data

/-- What becomes of a file that is there. -/
structure Answers (files : Files) (path text : String) : Prop where
  /-- Instances are returned exactly if all elements are accepted. -/
  accepted : ∀ problems, load files path = .ok problems ↔ ∃ data items, Json.read text = .ok data ∧
    elements? data = some items ∧ Accepts 0 items problems
  /-- Every failure is for a wrong value, syntax included, or for a value of the wrong type. How deep a machine can
  follow nested values is not modelled, and so neither is the failure of one that cannot. -/
  kinds : ∀ failure, load files path = .error failure → failure.kind ∈ ["JSONDecodeError", "ValueError", "TypeError"]
  /-- It is the latter exactly if the first element that is not accepted has such a value. -/
  types : (∃ failure, load files path = .error failure ∧ failure.kind = "TypeError") ↔
    ∃ data items, Json.read text = .ok data ∧ elements? data = some items ∧ FirstIsIllTyped items
  /-- The failure of a list is that of the first element that is refused. -/
  first : ∀ items, Json.read text = .ok (.list items) → ∀ failure, load files path = .error failure ↔
    ∃ before data after, items = before ++ data :: after ∧ (∃ problems, Accepts 0 before problems) ∧
      check before.length data = .error failure

theorem checkAll_misuse_iff :
    (∃ failure, checkAll 0 values = .error failure ∧ failure.IsMisuse) ↔ FirstIsIllTyped values := by
  simp only [checkAll_eq_error_iff]
  constructor
  · rintro ⟨failure, ⟨before, data, after, same, accepted, refused⟩, misuse⟩
    exact ⟨before, data, after, same, accepted, check_misuse_iff.mp ⟨failure, refused, misuse⟩⟩
  · rintro ⟨before, data, after, same, accepted, untyped⟩
    obtain ⟨failure, refused, misuse⟩ := check_misuse_iff.mpr untyped
    exact ⟨failure, ⟨before, data, after, same, accepted, refused⟩, misuse⟩

theorem ofValue_eq_ok_iff :
    ofValue data = .ok problems ↔ ∃ items, elements? data = some items ∧ Accepts 0 items problems := by
  rw [ofValue_eq]
  cases elements? data <;> simp [checkAll_eq_ok_iff]

theorem ofValue_misuse_iff : (∃ failure, ofValue data = .error failure ∧ failure.IsMisuse) ↔
    ∃ items, elements? data = some items ∧ FirstIsIllTyped items := by
  rw [ofValue_eq]
  cases elements? data with
  | none => exact iff_of_false (by rintro ⟨_, same, _, rfl⟩; cases same) nofun
  | some items => simp only [Option.map_some, Option.getD_some, checkAll_misuse_iff, Option.some.injEq, exists_eq_left']

theorem load_of_at? (stands : files.at? path = some (.text content)) :
    load files path = ofText (String.ofList (Text.unifyLineEnds content.toList)) := by
  have exist : files.exists? path = true := by
    obtain ⟨place, found, -⟩ := Option.bind_eq_some_iff.mp stands
    rw [Files.exists?, found]
    rfl
  rw [load, if_pos exist, Files.read, stands]
  rfl

theorem IsRefusal.kind_mem (refusal : IsRefusal failure) :
    failure.kind ∈ ["JSONDecodeError", "ValueError", "TypeError"] := by
  rcases refusal with wrong | ⟨fault, rfl⟩
  · exact List.mem_append_left ["TypeError"] (of_decide_eq_true wrong)
  · simp [Failure.kind]

theorem IsRefusal.kind_eq_iff (refusal : IsRefusal failure) : failure.kind = "TypeError" ↔ failure.IsMisuse := by
  rcases refusal with wrong | misuse
  · refine iff_of_false ?_ fun misuse => by cases wrong.symm.trans misuse.not_isWrongValue
    intro same
    rw [Failure.isWrongValue, same] at wrong
    cases wrong
  · refine iff_of_true ?_ misuse
    obtain ⟨fault, rfl⟩ := misuse
    rfl

/-- A file with a text is answered as its elements are: by their instances, or by the failure of the first one that is
refused. Values of the wrong type are not reported as wrong values. -/
theorem answers_of_at? (stands : files.at? path = some (.text content)) :
    Answers files path (String.ofList (Text.unifyLineEnds content.toList)) := by
  have answer := load_of_at? stands
  have only := failsOnly_ofText (String.ofList (Text.unifyLineEnds content.toList))
  generalize String.ofList (Text.unifyLineEnds content.toList) = text at answer only
  rw [← answer] at only
  have loaded {data : Value} (read : Json.read text = .ok data) : load files path = ofValue data := by
    rw [answer, ofText, read]
    rfl
  refine ⟨?_, fun failure failed => (only failure failed).kind_mem, ?_, ?_⟩
  · intro problems
    rw [answer, ofText, bind_eq_ok_iff]
    simp only [ofValue_eq_ok_iff, exists_and_left]
  · have kind : (∃ failure, load files path = .error failure ∧ failure.kind = "TypeError") ↔
        ∃ failure, load files path = .error failure ∧ failure.IsMisuse :=
      exists_congr fun failure => and_congr_right fun failed => (only failure failed).kind_eq_iff
    rw [kind]
    cases read : Json.read text with
    | error failure =>
      refine iff_of_false ?_ nofun
      rintro ⟨other, same, misuse⟩
      rw [answer, ofText, read] at same
      cases same
      cases (Json.failsOnly_read text failure read).symm.trans misuse.not_isWrongValue
    | ok data =>
      rw [loaded read, ofValue_misuse_iff]
      simp only [Except.ok.injEq, exists_and_left, exists_eq_left']
  · intro items read failure
    rw [loaded read, show ofValue (.list items) = checkAll 0 items from rfl, checkAll_eq_error_iff]
    simp only [Nat.zero_add]

/-- A list with an instance, one without nodes, and a number. -/
def mixedText : String :=
  "[\x7b\"nodes\": [0], \"edges\": []\x7d, \x7b\"nodes\": null, \"edges\": []\x7d, 7]"

theorem answers_of_at?_mixed : (Files.ofTexts [("a", mixedText)]).at? "a" = some (.text mixedText) ∧
    Answers (.ofTexts [("a", mixedText)]) "a" (String.ofList (Text.unifyLineEnds mixedText.toList)) := by
  have stands : (Files.ofTexts [("a", mixedText)]).at? "a" = some (.text mixedText) := by cbv
  exact ⟨stands, answers_of_at? stands⟩

/-- An instance whose nodes are null is not refused for a wrong value. -/
theorem load_null_nodes :
    load (.ofTexts [("a", "\x7b\"nodes\": null, \"edges\": []\x7d")]) "a" =
      .error (.misuse (.notIterable .null)) ∧
    (Failure.misuse (.notIterable .null)).kind = "TypeError" := by
  constructor
  · cbv
  · rfl

end InstanceFile

end SteinerTrees
