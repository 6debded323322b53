import SteinerTrees.Proofs.Files.Written
import SteinerTrees.Proofs.InstanceFile.Builds
import SteinerTrees.Proofs.Json.RoundTrip
import SteinerTrees.Proofs.Store.RoundTrip

/-! # Instances there and back

Instances that were loaded are saved and loaded again as they were. What the first check fills in can be held by a file,
and the second check finds nothing to fill in. In the same way a store comes back from a file, provided its labels and
names are values that a text spells. -/

namespace SteinerTrees

/-- Some text spells the value. -/
def Value.Spelled (value : Value) : Prop := ∃ text, Json.read text = .ok value

/-- A document can be written at a path. -/
def Files.Writable (files : Files) (path : String) : Prop := ∃ document written, files.write path document = .ok written

namespace Json

variable {limit : ℕ∞} {name : String} {value a b : Value} {entries : List (String × Value)} {n index : Nat}

theorem storable_of_spelled (spelled : value.Spelled) : Storable ⊤ value := by
  obtain ⟨text, found⟩ := spelled
  exact (storable_of_read found).mono le_top

theorem storable_int (short : n < 10 ^ Decimal.digitLimit) : Storable limit (.int n) :=
  .int ((Decimal.width_le_iff (by decide)).mpr short)

theorem joined_points {s : String} (plain : ∀ c ∈ s.toList, c.toNat < 0xD800) : Joined (Text.points s) := by
  have unmarked : Text.mark ∉ s.toList := fun member => absurd (plain _ member) (by decide)
  rw [Text.points, Text.pointsFrom_of_unmarked unmarked]
  exact joined_of_lt (List.forall_mem_map.mpr plain)

/-- Text in characters below the surrogates. -/
theorem storable_text {s : String} (plain : ∀ c ∈ s.toList, c.toNat < 0xD800) : Storable ⊤ (.text s) :=
  .text (joined_points plain) le_top

/-! ## Filling in -/

theorem storable_dict (inside : ∀ entry ∈ entries, Storable ⊤ entry.2) (distinct : (entries.map (·.1)).Nodup)
    (plain : ∀ name ∈ entries.map (·.1), ∀ c ∈ name.toList, c.toNat < 0xD800) : Storable ⊤ (.dict entries) :=
  .dict inside (fun _ member => joined_points (plain _ (List.mem_map_of_mem member))) distinct le_top

theorem storable_customMetadata (short : n < 10 ^ Decimal.digitLimit) : Storable ⊤ (Graph.customMetadata n) := by
  have names : ["generator", "size", "params"].Nodup := by decide
  refine storable_dict ?_ names (by simp)
  simp only [List.forall_mem_cons, List.not_mem_nil, false_implies, implies_true, and_true]
  exact ⟨storable_text (by simp), storable_int short, storable_dict (by simp) List.nodup_nil (by simp)⟩

theorem storable_customName (index : Nat) : Storable ⊤ (.text s!"custom_{index}") := by
  refine storable_text fun c member => ?_
  rw [String.toList_append, List.mem_append] at member
  rcases member with front | digit
  · have plain : ∀ c ∈ "custom_".toList, c.toNat < 0xD800 := by simp
    exact plain c front
  · have text : (toString index).toList = Nat.toDigits 10 index := Nat.toList_repr
    have value := value_lt (Decimal.isDigit_of_mem c (text ▸ digit))
    omega

theorem Storable.setDefault (storable : Storable ⊤ (.dict entries)) (found : Storable ⊤ value)
    (plain : ∀ c ∈ name.toList, c.toNat < 0xD800) : Storable ⊤ (.dict (Value.setDefault name value entries)) := by
  unfold Value.setDefault
  split
  · exact storable
  next absent =>
    cases storable with
    | dict inside names distinct few =>
      have fresh : name ∉ entries.map (·.1) := by
        rw [Value.lookup?, Option.isSome_map, List.find?_isSome] at absent
        simpa using absent
      have whole : Kept ⊤ entries.length entries := ⟨inside, names, distinct, le_refl _⟩
      have kept := whole.setEntry found (joined_points plain)
      rw [setEntry_of_fresh fresh] at kept
      exact .dict kept.inside kept.joined kept.distinct le_top

/-- A collection in a file has no more members than the file allows for. -/
theorem Storable.length_le (storable : Storable limit value) (measured : value.length = .ok n) : n ≤ limit := by
  cases storable with
  | text joined few =>
    cases measured
    exact few
  | list inside few =>
    cases measured
    exact few
  | dict inside joined distinct few =>
    cases measured
    exact few
  | _ => cases measured

theorem Storable.lookup? (storable : Storable limit (.dict entries)) (found : Value.lookup? name entries = some value) :
    Storable limit value := by
  cases storable with
  | dict inside =>
    obtain ⟨entry, here, rfl⟩ := Option.map_eq_some_iff.mp found
    exact inside entry (List.mem_of_find?_eq_some here)

/-! ## Labels -/

/-- An integer that is equal to a float is not larger than all floats. -/
theorem lt_of_floatPart {x : Binary64} {m : Int} (same : Value.floatPart x = .number m) :
    m.natAbs < 10 ^ Decimal.digitLimit := by
  unfold Value.floatPart at same
  split at same
  · cases same
  · split at same
    next found =>
      cases same
      unfold Binary64.toInt? at found
      split at found
      next whole =>
        have finite : x.exponent.val < 2047 := Binary64.exponent_lt whole.1
        have power : 53 + x.power.toNat ≤ Decimal.digitLimit := by
          unfold Binary64.power Decimal.digitLimit
          omega
        have significand : x.significand < 2 ^ 53 := by
          have fraction := x.fraction.isLt
          unfold Binary64.significand Binary64.fractionLimit
          split <;> omega
        have size : m.natAbs = x.numerator / x.denominator := by
          rw [Option.some.injEq] at found
          rw [← found]
          split
          · exact Int.natAbs_neg _
          · rfl
        calc
          m.natAbs ≤ x.significand * 2 ^ x.power.toNat := size.trans_le (Nat.div_le_self _ _)
          _ < 2 ^ 53 * 2 ^ x.power.toNat := Nat.mul_lt_mul_of_pos_right significand (Nat.two_pow_pos _)
          _ = 2 ^ (53 + x.power.toNat) := (Nat.pow_add 2 53 _).symm
          _ ≤ 2 ^ Decimal.digitLimit := Nat.pow_le_pow_right (by decide) power
          _ ≤ 10 ^ Decimal.digitLimit := Nat.pow_le_pow_left (by decide) _
      next => cases found
    next => cases same

theorem floatPart_cases {x : Binary64} :
    (∃ m, Value.floatPart x = .number m) ∨ ∃ y, Value.floatPart x = .float y := by
  unfold Value.floatPart
  split
  · exact .inr ⟨_, rfl⟩
  · split
    · exact .inl ⟨_, rfl⟩
    · exact .inr ⟨_, rfl⟩

/-- Whatever is the same label as one that a file can hold can be held as well. -/
theorem Storable.of_key_eq (storable : Storable ⊤ a) (reflexive : a.Reflexive) (hashable : b.isHashable = true)
    (same : b.key = a.key) : Storable ⊤ b := by
  have ordered : b.Reflexive := reflexive.of_key_eq same
  cases b with
  | null => exact .null
  | bool b => exact .bool b
  | float x => exact .float fun unordered => nomatch ordered.symm.trans unordered
  | list items => cases hashable
  | dict entries => cases hashable
  | int n =>
    rw [Value.key] at same
    cases storable with
    | int short =>
      cases same
      exact .int short
    | bool b =>
      cases same
      exact .int (by cases b <;> decide)
    | float canonical =>
      rw [Value.key, List.cons.injEq] at same
      exact .int ((Decimal.width_le_iff (by decide)).mpr (lt_of_floatPart same.1.symm))
    | _ => cases same
  | text s =>
    rw [Value.key] at same
    cases storable with
    | text joined few =>
      cases same
      exact .text joined few
    | float canonical =>
      rw [Value.key, List.cons.injEq] at same
      rcases floatPart_cases with ⟨m, part⟩ | ⟨y, part⟩ <;> cases same.1.trans part
    | _ => cases same
  | tuple items =>
    rw [Value.key] at same
    cases storable with
    | float canonical =>
      rw [Value.key, List.cons.injEq] at same
      rcases floatPart_cases with ⟨m, part⟩ | ⟨y, part⟩ <;> cases same.1.trans part
    | _ => cases same

end Json

namespace InstanceFile

open Json

variable {files disk : Files} {path target : String} {data problem nodes : Value} {problems values : List Value}
  {index : Nat} {entries result : List (String × Value)} {limit : ℕ∞}

/-! ## The second check -/

/-- What is filled in: terminals, a description of the size, and a name. -/
theorem complete_cases (completed : complete index entries nodes = .ok result) : ∃ description,
    (description = .null ∨ ∃ size, nodes.length = .ok size ∧ description = Graph.customMetadata size) ∧
    result = Value.setDefault "instance_name" (.text s!"custom_{index}")
      (Value.setDefault "metadata" description (Value.setDefault "terminals" (.list []) entries)) := by
  unfold complete at completed
  simp only at completed
  split at completed
  next found =>
    cases completed
    refine ⟨.null, .inl rfl, ?_⟩
    conv_rhs => rw [Value.setDefault, Value.setDefault, found]
    rfl
  next absent =>
    obtain ⟨middle, filled, same⟩ := bind_eq_ok_iff.mp completed
    obtain ⟨size, measured, rfl⟩ := map_eq_ok_iff.mp filled
    cases same
    refine ⟨Graph.customMetadata size, .inr ⟨size, measured, rfl⟩, ?_⟩
    conv_rhs => rw [Value.setDefault, Value.setDefault, absent]
    rfl

theorem isSome_lookup?_setDefault {name other : String} {value : Value} :
    (Value.lookup? name (Value.setDefault other value entries)).isSome ↔
      name = other ∨ (Value.lookup? name entries).isSome := by
  rcases eq_or_ne other name with rfl | differ
  · rw [Value.lookup?_setDefault]
    simp
  · rw [Value.lookup?_setDefault_of_ne differ, or_iff_right differ.symm]

/-- Nothing is filled in for the second time. -/
theorem check_again (checked : check index data = .ok problem) (place : Nat) : check place problem = .ok problem := by
  obtain ⟨nodes, edges, terminals, lists⟩ := check_spec checked
  obtain ⟨entries, named, collection, members, known, result, rfl, found, listed, -, -, -, -, done, rfl⟩ :=
    check_eq_ok_iff.mp checked
  refine check_of_lists lists ?_ place
  obtain ⟨description, -, rfl⟩ := complete_cases done
  simp only [List.forall_mem_cons, isSome_lookup?_setDefault, found, listed, Option.isSome_some, or_true, true_or,
    List.not_mem_nil, false_implies, implies_true, and_self]

theorem checkAll_again (checked : checkAll index values = .ok problems) (place : Nat) :
    checkAll place problems = .ok problems := by
  induction values generalizing index problems place with
  | nil =>
    cases checked
    rfl
  | cons data rest ih =>
    obtain ⟨first, here, checked⟩ := bind_eq_ok_iff.mp checked
    obtain ⟨others, there, same⟩ := bind_eq_ok_iff.mp checked
    cases same
    rw [checkAll, check_again here, ih there]
    rfl

theorem ofValue_again (checked : ofValue data = .ok problems) : ofValue (.list problems) = .ok problems := by
  unfold ofValue at checked
  split at checked
  · exact checkAll_again checked 0
  · exact checkAll_again checked 0
  · cases checked

/-! ## Files -/

/-- What is filled in can be held by a file. -/
theorem storable_of_check {size : Nat} (storable : Storable size data) (short : size < 10 ^ Decimal.digitLimit)
    (checked : check index data = .ok problem) : Storable ⊤ problem := by
  obtain ⟨entries, nodes, collection, members, known, result, rfl, found, -, -, -, -, -, done, rfl⟩ :=
    check_eq_ok_iff.mp checked
  obtain ⟨description, described, rfl⟩ := complete_cases done
  have description : Storable ⊤ description := by
    rcases described with rfl | ⟨n, measured, rfl⟩
    · exact .null
    · have few := Nat.cast_le.mp ((storable.lookup? found).length_le measured)
      exact storable_customMetadata (few.trans_lt short)
  have terminals : Storable ⊤ (.list []) := .list (by simp) le_top
  exact (((storable.mono le_top).setDefault terminals (by simp)).setDefault description (by simp)).setDefault
    (storable_customName index) (by simp)

theorem storable_of_checkAll {size : Nat} (storable : ∀ data ∈ values, Storable size data)
    (short : size < 10 ^ Decimal.digitLimit) (checked : checkAll index values = .ok problems) :
    ∀ problem ∈ problems, Storable ⊤ problem := by
  intro problem member
  obtain ⟨place, data, listed, passed⟩ := exists_check_of_checkAll checked member
  exact storable_of_check (storable data listed) short passed

/-- Instances that were loaded can be saved, and pass the check again. -/
theorem storable_of_load (short : ∀ content, files.read path = .ok content → content.length < 10 ^ Decimal.digitLimit)
    (loaded : load files path = .ok problems) :
    Storable ⊤ (.list problems) ∧ ofValue (.list problems) = .ok problems := by
  unfold load at loaded
  split at loaded
  next =>
    obtain ⟨content, opened, loaded⟩ := bind_eq_ok_iff.mp loaded
    obtain ⟨data, found, loaded⟩ := bind_eq_ok_iff.mp loaded
    refine ⟨.list ?_ le_top, ofValue_again loaded⟩
    have storable := storable_of_read found
    unfold ofValue at loaded
    split at loaded
    · exact storable_of_checkAll (List.forall_mem_singleton.mpr storable) (short content opened) loaded
    · cases storable with
      | list inside few => exact storable_of_checkAll inside (short content opened) loaded
    · cases loaded
  next => cases loaded

/-- Saving `problems` and loading them comes to `reloaded`. -/
def Returns (disk : Files) (target : String) (problems reloaded : List Value) : Prop :=
  ∃ written, save disk target (.list problems) = .ok written ∧
    written.read target = .ok (render (.list problems)) ∧ load written target = .ok reloaded

/-- What can be held by a file is read as it was written, and then checked. -/
theorem returns_of_storable (storable : Storable ⊤ (.list problems)) (writable : disk.Writable target)
    {reloaded : List Value} (checked : ofValue (.list problems) = .ok reloaded) :
    Returns disk target problems reloaded := by
  obtain ⟨other, somewhere, done⟩ := writable
  obtain ⟨written, saved⟩ := Files.exists_write done (.text (render (.list problems)))
  obtain ⟨there, opened⟩ := Files.read_of_write saved
  have kept : save disk target (.list problems) = .ok written := by
    simp only [save, saved, storable.isWritable, bind, Except.bind, ↓reduceIte]
    rfl
  have unreturned : '\r' ∉ (render (.list problems)).toList := storable.notMem_chars 0
  have content : written.read target = .ok (render (.list problems)) := by
    rw [opened, Files.unified, Files.unifyLineEnds_eq unreturned, String.ofList_toList]
  refine ⟨written, kept, content, ?_⟩
  rw [load, if_pos there, content]
  have found : Json.read (render (.list problems)) = .ok (.list problems) := read_indented storable
  simp only [bind, Except.bind, ofText, found, checked]

end InstanceFile

/-! ## Stores -/

namespace Graph

variable {g : Graph} {terminals : List Value} {limit : ℕ∞}

theorem storable_edgeEntry {e : Edge} (source : Json.Storable ⊤ e.source) (target : Json.Storable ⊤ e.destination)
    (name : Json.Storable ⊤ e.name) : Json.Storable ⊤ (edgeEntry e) := by
  have names : ["source", "target", "name"].Nodup := by decide
  refine Json.storable_dict ?_ names (by simp)
  simp only [List.forall_mem_cons, List.not_mem_nil, false_implies, implies_true, and_true]
  exact ⟨source, target, name⟩

theorem storable_toInstance (valid : g.WellFormed) (short : g.size < 10 ^ Decimal.digitLimit)
    (labels : ∀ label ∈ g.labels.toList, Json.Storable ⊤ label)
    (names : ∀ link ∈ g.links.toList, Json.Storable ⊤ link.name)
    (ends : ∀ terminal ∈ terminals, Json.Storable ⊤ terminal) : Json.Storable ⊤ (g.toInstance terminals) := by
  have keys : ["nodes", "edges", "terminals", "metadata"].Nodup := by decide
  have label (v : Nat) (inside : v < g.size) : Json.Storable ⊤ (g.label v) := by
    rw [label_eq inside]
    exact labels _ (Array.mem_toList_iff.mpr (Array.getElem_mem inside))
  refine Json.storable_dict ?_ keys (by simp)
  simp only [List.forall_mem_cons, List.not_mem_nil, false_implies, implies_true, and_true]
  refine ⟨.list labels le_top, .list ?_ le_top, .list ends le_top, Json.storable_customMetadata short⟩
  rw [edges, List.map_map, List.forall_mem_map]
  intro link member
  have inside := valid.ends link member
  exact storable_edgeEntry (label _ inside.1) (label _ inside.2) (names link member)

/-- What is resolved has the key of the label at the index. -/
theorem key_of_resolve {a : Value} {v : Nat} (found : g.resolve a = .ok v) :
    a.isHashable = true ∧ ∃ label ∈ g.labels.toList, label.key = a.key := by
  obtain ⟨label, read, found⟩ := bind_eq_ok_iff.mp found
  obtain ⟨hashable, rfl⟩ := Value.asLabel_eq_ok_iff.mp read
  cases here : g.indexOf? label with
  | none =>
    rw [here] at found
    cases found
  | some w =>
    obtain ⟨inside, same⟩ := indexOf?_spec here
    rw [label_eq inside] at same
    exact ⟨hashable, _, Array.mem_toList_iff.mpr (Array.getElem_mem inside), same⟩

/-- The instance of a tidy graph passes the check with a name. -/
theorem Tidy.check_toInstance (tidy : g.Tidy) (known : ∀ terminal ∈ terminals, terminal.isHashable = true ∧
    terminal.key ∈ g.labels.toList.map Value.key) : ∃ problem, InstanceFile.check 0 (g.toInstance terminals) =
      .ok problem ∧ problem.Describes g.labels.toList (g.edges.map entryOf) ∧
      problem.field "terminals" = .ok (.list terminals) := by
  have described := g.describes_toInstance terminals
  have lists : InstanceFile.Lists (g.toInstance terminals) g.labels.toList (g.edges.map entryOf) terminals := by
    refine ⟨described, rfl, fun label member => (tidy.labels label member).2,
      fun e member label ended => (tidy.traces.proper e member label ended).1, fun terminal member => ?_⟩
    obtain ⟨hashable, listed⟩ := known terminal member
    rw [List.map_append]
    exact ⟨hashable, List.mem_append_left _ listed⟩
  have whole : ∀ name ∈ ["edges", "terminals"], (Value.lookup? name [("nodes", .list g.labels.toList),
      ("edges", .list (g.edges.map edgeEntry)), ("terminals", .list terminals),
      ("metadata", customMetadata g.size)]).isSome :=
    List.forall_mem_cons.mpr ⟨rfl, List.forall_mem_singleton.mpr rfl⟩
  exact ⟨_, InstanceFile.check_of_complete lists whole rfl rfl, ⟨described.nodes, described.edges⟩, rfl⟩

end Graph

/-- What a store and terminals have to be for a file to hold them: the labels equal themselves, some text spells each
label and each name, and the terminals are vertices. The bound is that of the numbers that are written. -/
structure Store.Fits (s : Store) (terminals : List Value) : Prop where
  labels : ∀ label ∈ s.graph.labels.toList, label.Spelled ∧ label.Reflexive
  names : ∀ link ∈ s.links.toList, link.name.Spelled
  terminals : ∀ terminal ∈ terminals, ∃ v, s.resolve (.label terminal) = .ok v
  few : s.size < 10 ^ Decimal.digitLimit

namespace InstanceFile

open Json

variable {disk : Files} {target : String} {terminals : List Value} {calls : List Call}

theorem returns_store (fits : (Store.after calls).Fits terminals) (writable : disk.Writable target) :
    ∃ problem, Returns disk target [(Store.after calls).toInstance terminals] [problem] ∧
      problem.field "terminals" = .ok (.list terminals) ∧ Store.ofInstance problem = .ok (Store.after calls) := by
  obtain ⟨labels, names, ends, few⟩ := fits
  rw [Store.after_eq] at *
  rw [Store.graph_ofGraph] at labels
  rw [Store.size_ofGraph] at few
  have tidy : (Graph.after calls).Tidy := Graph.tidy_of_labels fun label member => (labels label member).2
  generalize Graph.after calls = g at *
  have valid := tidy.built.wellFormed
  have found : ∀ terminal ∈ terminals, terminal.isHashable = true ∧
      ∃ label ∈ g.labels.toList, label.key = terminal.key := by
    intro terminal member
    obtain ⟨v, resolved⟩ := ends terminal member
    rw [Store.resolve_ofGraph valid] at resolved
    exact Graph.key_of_resolve resolved
  have storable : Storable ⊤ (g.toInstance terminals) := by
    refine Graph.storable_toInstance valid few (fun label member => storable_of_spelled (labels label member).1)
      (fun link member => storable_of_spelled (names link member)) fun terminal member => ?_
    obtain ⟨hashable, label, listed, same⟩ := found terminal member
    exact (storable_of_spelled (labels label listed).1).of_key_eq (labels label listed).2 hashable same.symm
  obtain ⟨problem, checked, described, listed⟩ := tidy.check_toInstance fun terminal member =>
    (found terminal member).imp_right fun ⟨label, listed, same⟩ => same ▸ List.mem_map_of_mem listed
  refine ⟨problem, ?_, listed, ?_⟩
  · rw [Store.toInstance_ofGraph valid]
    refine returns_of_storable (.list (List.forall_mem_singleton.mpr storable) le_top) writable ?_
    rw [ofValue, checkAll, checked]
    rfl
  · rw [Store.ofInstance_eq, tidy.ofInstance_of_describes described]
    rfl

/-- Instances that were loaded are saved, and loaded again as they were. A store is saved as an instance, loaded, and
built again with the same indexes and in the same orders. The number of nodes may be written to the file, so it is
taken to have no more digits than a number that is read; no file is longer than that. -/
theorem load_save (writable : disk.Writable target) :
    (∀ files path problems, load files path = .ok problems →
      (∀ content, files.read path = .ok content → content.length < 10 ^ Decimal.digitLimit) →
      Returns disk target problems problems) ∧
    ∀ calls terminals, (Store.after calls).Fits terminals →
      ∃ problem, Returns disk target [(Store.after calls).toInstance terminals] [problem] ∧
        problem.field "terminals" = .ok (.list terminals) ∧ Store.ofInstance problem = .ok (Store.after calls) := by
  constructor
  · intro files path problems loaded short
    obtain ⟨storable, checked⟩ := storable_of_load short loaded
    exact returns_of_storable storable writable checked
  · exact fun calls terminals fits => returns_store fits writable

/-! ## An escaped pair, two floats and empty collections -/

def nestedText : String :=
  "[\x7b\"nodes\": [\"\\ud83d\\ude00\"], \"edges\": [], \"more\": [\x7b\x7d, 0.0, -1e999]\x7d]"

def nested : Files := .ofTexts [("a", nestedText)]

def nestedEntries : List (String × Value) :=
  [("nodes", .list [.text "😀"]), ("edges", .list []),
    ("more", .list [.dict [], .float (.ofCode false 0), .float (.infinity true)])]

def nestedInstance : Value :=
  .dict (nestedEntries ++ [("terminals", .list []), ("metadata", Graph.customMetadata 1),
    ("instance_name", .text "custom_0")])

theorem read_nested : nested.read "a" = .ok nestedText := by cbv

theorem load_nested : load nested "a" = .ok [nestedInstance] := by
  have there : nested.exists? "a" = true := by cbv
  have found : Json.read nestedText = .ok (.list [.dict nestedEntries]) := by cbv
  rw [load, if_pos there, read_nested]
  simp only [bind, Except.bind, ofText, found]
  cbv

theorem fits_mixedCalls : (Store.after Store.mixedCalls).Fits [.int 1, .text "c"] where
  labels := by
    have labels : (Store.after Store.mixedCalls).graph.labels = #[.int 1, .text "b", .text "c"] := by cbv
    rw [labels]
    simp only [List.forall_mem_cons, List.not_mem_nil, false_implies, implies_true, and_true]
    exact ⟨⟨⟨"1", by cbv⟩, rfl⟩, ⟨⟨"\"b\"", by cbv⟩, rfl⟩, ⟨⟨"\"c\"", by cbv⟩, rfl⟩⟩
  names := by
    have links : (Store.after Store.mixedCalls).links = #[⟨.text "True-b", 0, 1⟩, ⟨.text "cb", 2, 1⟩] := by cbv
    rw [links]
    simp only [List.forall_mem_cons, List.not_mem_nil, false_implies, implies_true, and_true]
    exact ⟨⟨"\"True-b\"", by cbv⟩, ⟨"\"cb\"", by cbv⟩⟩
  terminals := by
    simp only [List.forall_mem_cons, List.not_mem_nil, false_implies, implies_true, and_true]
    exact ⟨⟨0, by cbv⟩, ⟨2, by cbv⟩⟩
  few := by
    have size : (Store.after Store.mixedCalls).size = 3 := by cbv
    rw [size]
    decide +kernel

/-- The instance with nested values and the history with equal labels of different types, saved below a new
directory. -/
theorem load_save_nested : nested.Writable "b/c" ∧ load nested "a" = .ok [nestedInstance] ∧
    Returns nested "b/c" [nestedInstance] [nestedInstance] ∧
    (Store.after Store.mixedCalls).Fits [.int 1, .text "c"] ∧
    ∃ problem, Returns nested "b/c" [(Store.after Store.mixedCalls).toInstance [.int 1, .text "c"]] [problem] ∧
      problem.field "terminals" = .ok (.list [.int 1, .text "c"]) ∧
      Store.ofInstance problem = .ok (Store.after Store.mixedCalls) := by
  have writable : nested.Writable "b/c" := ⟨.text "", _, by cbv⟩
  have short : ∀ content, nested.read "a" = .ok content → content.length < 10 ^ Decimal.digitLimit := by
    intro content opened
    cases read_nested.symm.trans opened
    decide +kernel
  exact ⟨writable, load_nested, (load_save writable).1 nested "a" _ load_nested short, fits_mixedCalls,
    (load_save writable).2 Store.mixedCalls _ fits_mixedCalls⟩

end InstanceFile

end SteinerTrees
