import SteinerTrees.Proofs.Graph.Built
import SteinerTrees.Proofs.Value.Reading

/-! # What adding leaves behind

The outcome of a call to add an edge depends on four questions, asked in this order: whether the labels are
equal, whether both can be labels, whether they are linked, and which of the two are missing. Whatever the
outcome, a call appends: vertices, links and names that are there stay as they are and where they are. -/

namespace SteinerTrees.Graph

variable {g h : Graph} {a label source destination name : Value} {labels : List Value} {u v : Nat}

/-- A link without a name of its own has one if both of its ends can be written. -/
theorem defaultName_eq_ok_iff {named : Value} : defaultName source destination = .ok named ↔
    source.isWritable = true ∧ destination.isWritable = true ∧
      named = .text s!"{source.display}-{destination.display}" := by
  unfold defaultName
  split
  next writable =>
    rw [Bool.and_eq_true] at writable
    rw [Except.ok.injEq, and_iff_right writable.1, and_iff_right writable.2, eq_comm]
  next unwritable =>
    rw [Bool.and_eq_true] at unwritable
    exact iff_of_false nofun fun ⟨first, second, _⟩ => unwritable ⟨first, second⟩

theorem nameOf_of_ne_null (given : name ≠ .null) : nameOf source destination name = .ok name := by
  cases name <;> first | exact absurd rfl given | rfl

/-- The name of a link is never left open. -/
theorem nameOf_ne_null {named : Value} (found : nameOf source destination name = .ok named) : named ≠ .null := by
  by_cases given : name = .null
  · subst given
    obtain ⟨-, -, rfl⟩ := defaultName_eq_ok_iff.mp found
    exact Value.noConfusion
  · rw [nameOf_of_ne_null given] at found
    cases found
    exact given

/-- A link between ends that can be written has a name. -/
theorem exists_nameOf (first : source.isWritable = true) (second : destination.isWritable = true) (name : Value) :
    ∃ named, nameOf source destination name = .ok named := by
  by_cases given : name = .null
  · subst given
    exact ⟨_, defaultName_eq_ok_iff.mpr ⟨first, second, rfl⟩⟩
  · exact ⟨name, nameOf_of_ne_null given⟩

/-- What was found before another label was added is still found. -/
theorem Ensures.indexOf?_mono {result : Graph} (ensures : g.Ensures a result u)
    {b : Value} (found : g.indexOf? b = some v) : result.indexOf? b = some v := by
  by_cases same : b.key = a.key
  · have here : g.indexOf? a = some v := indexOf?_congr same ▸ found
    rw [indexOf?_congr same, ensures.found, ensures.kept v here]
  · rw [ensures.others b same, found]

/-! ## The four questions -/

theorem addEdge_of_equal (same : source.equal destination = true) :
    g.addEdge source destination name = (g, .error (Failure.selfLoop source).written) := if_pos same

theorem addEdge_of_unhashable (differ : source.equal destination = false)
    (unusable : source.isHashable = false ∨ destination.isHashable = false) :
    ∃ part, g.addEdge source destination name = (g, .error (.misuse (.unhashable part))) := by
  unfold addEdge
  rw [differ]
  rcases source.asLabel_cases with ⟨start, first⟩ | ⟨-, part, first⟩
  · rcases destination.asLabel_cases with ⟨stop, second⟩ | ⟨-, part, second⟩
    · rw [start, stop] at unusable
      exact absurd unusable (by decide)
    · exact ⟨part, by rw [first, second]; rfl⟩
  · exact ⟨part, by rw [first]; rfl⟩

theorem addEdge_of_linked (differ : source.equal destination = false) (start : source.isHashable = true)
    (stop : destination.isHashable = true) (linked : g.isLinked source destination = true) :
    g.addEdge source destination name = (g, .error (Failure.duplicateEdge source destination).written) := by
  unfold addEdge
  rw [differ, Value.asLabel_of_isHashable start, Value.asLabel_of_isHashable stop]
  exact if_pos linked

/-- Between different labels that are not linked, what is missing of the two vertices is added, and a link if it has a
name. -/
theorem addEdge_of_unlinked (valid : g.WellFormed) (differ : source.key ≠ destination.key)
    (start : source.isHashable = true) (stop : destination.isHashable = true)
    (unlinked : g.isLinked source destination = false) :
    let added := (g.ensure source).1.ensure destination
    g.addEdge source destination name =
      added.1.linkNamed (nameOf source destination name) (g.ensure source).2 added.2 := by
  have unequal : source.equal destination = false := by
    rw [Value.equal, Bool.and_eq_false_iff]
    exact .inl (Bool.eq_false_iff.mpr fun same => differ (Value.same_iff.mp same))
  have kept : (g.ensure source).1.indexOf? destination = g.indexOf? destination :=
    (valid.ensure source).others destination (Ne.symm differ)
  have absent : ¬ ((g.indexOf? destination).isNone = true ∧ (g.indexOf? destination).isSome = true) := by
    cases g.indexOf? destination <;> simp
  unfold addEdge
  rw [unequal, Value.asLabel_of_isHashable start, Value.asLabel_of_isHashable stop]
  simp only [Bool.false_eq_true, ↓reduceIte, unlinked, kept, if_neg absent]

/-- A call to add an edge between labels of which the first equals itself fails and changes nothing, or adds what is
missing of the two vertices, and a link if it has a name. -/
theorem addEdge_reflexive (valid : g.WellFormed) (reflexive : source.Reflexive) (destination name : Value) :
    (∃ failure, g.addEdge source destination name = (g, .error failure)) ∨
    (source.key ≠ destination.key ∧ source.isHashable = true ∧ destination.isHashable = true ∧
      g.isLinked source destination = false ∧
      g.addEdge source destination name =
        ((g.ensure source).1.ensure destination).1.linkNamed (nameOf source destination name) (g.ensure source).2
          ((g.ensure source).1.ensure destination).2) := by
  cases same : source.equal destination with
  | true => exact .inl ⟨_, addEdge_of_equal same⟩
  | false =>
    cases start : source.isHashable with
    | false =>
      obtain ⟨part, failed⟩ := addEdge_of_unhashable same (.inl start)
      exact .inl ⟨_, failed⟩
    | true =>
      cases stop : destination.isHashable with
      | false =>
        obtain ⟨part, failed⟩ := addEdge_of_unhashable same (.inr stop)
        exact .inl ⟨_, failed⟩
      | true =>
        cases linked : g.isLinked source destination with
        | true => exact .inl ⟨_, addEdge_of_linked same start stop linked⟩
        | false =>
          have differ : source.key ≠ destination.key := by
            rw [Ne, ← Value.equal_iff reflexive, same]
            exact Bool.false_ne_true
          exact .inr ⟨differ, rfl, rfl, rfl, addEdge_of_unlinked valid differ start stop linked⟩

/-! ## Appending -/

/-- A graph after adding: some of the given labels were appended to its labels, and named links to its links. -/
structure Grown (given : List Value) (g h : Graph) : Prop where
  labels : ∃ more, h.labels.toList = g.labels.toList ++ more ∧
    ∀ label ∈ more, label ∈ given ∧ label.isHashable = true
  links : ∃ more, h.links.toList = g.links.toList ++ more ∧ ∀ link ∈ more, link.name ≠ .null

namespace Grown

variable {given : List Value} {i : Graph}

theorem refl : Grown given g g where
  labels := ⟨[], (List.append_nil _).symm, by simp⟩
  links := ⟨[], (List.append_nil _).symm, by simp⟩

theorem trans (first : Grown given g h) (second : Grown given h i) : Grown given g i := by
  obtain ⟨labels, here, known⟩ := first.labels
  obtain ⟨others, there, others_known⟩ := second.labels
  obtain ⟨links, joined, named⟩ := first.links
  obtain ⟨later, after, later_named⟩ := second.links
  refine ⟨⟨labels ++ others, by rw [there, here, List.append_assoc], ?_⟩,
    ⟨links ++ later, by rw [after, joined, List.append_assoc], ?_⟩⟩
  · exact fun label member => (List.mem_append.mp member).elim (known label) (others_known label)
  · exact fun link member => (List.mem_append.mp member).elim (named link) (later_named link)

theorem push (listed : a ∈ given) (hashable : a.isHashable = true) : Grown given g (g.push a) where
  labels := ⟨[a], Array.toList_push, by simp [listed, hashable]⟩
  links := ⟨[], (List.append_nil _).symm, by simp⟩

theorem ensure (listed : a ∈ given) (hashable : a.isHashable = true) : Grown given g (g.ensure a).1 := by
  unfold Graph.ensure
  cases g.indexOf? a with
  | some v => exact refl
  | none => exact push listed hashable

theorem link (named : name ≠ .null) : Grown given g (g.link name u v) where
  labels := ⟨[], (List.append_nil _).symm, by simp⟩
  links := ⟨[⟨name, u, v⟩], Array.toList_push, by simp [named]⟩

theorem linkNamed {named : Except Failure Value} (proper : ∀ name, named = .ok name → name ≠ .null) :
    Grown given g (g.linkNamed named u v).1 := by
  rcases linkNamed_cases g named u v with ⟨name, found, same⟩ | ⟨failure, -, same⟩
  · rw [same]
    exact link (proper name found)
  · rw [same]
    exact refl

theorem addEdge (valid : g.WellFormed) (reflexive : source.Reflexive) (destination name : Value) :
    Grown [source, destination] g (g.addEdge source destination name).1 := by
  rcases addEdge_reflexive valid reflexive destination name with
    ⟨failure, same⟩ | ⟨-, start, stop, -, same⟩
  · rw [same]
    exact refl
  · rw [same]
    exact ((ensure List.mem_cons_self start).trans (ensure (List.mem_cons_of_mem _ List.mem_cons_self) stop)).trans
      (linkNamed fun _ => nameOf_ne_null)

theorem addVertex (added : g.addVertex label = .ok h) : Grown [label] g h := by
  obtain ⟨same, read, added⟩ := bind_eq_ok_iff.mp added
  obtain ⟨hashable, rfl⟩ := Value.asLabel_eq_ok_iff.mp read
  split at added
  · cases added
  · cases added
    exact push List.mem_cons_self hashable

theorem labels_prefix (grown : Grown given g h) : g.labels.toList <+: h.labels.toList := by
  obtain ⟨more, same, -⟩ := grown.labels
  exact ⟨more, same.symm⟩

theorem links_prefix (grown : Grown given g h) : g.links.toList <+: h.links.toList := by
  obtain ⟨more, same, -⟩ := grown.links
  exact ⟨more, same.symm⟩

theorem hashable (grown : Grown given g h) (hashable : ∀ label ∈ g.labels.toList, label.isHashable = true) :
    ∀ label ∈ h.labels.toList, label.isHashable = true := by
  obtain ⟨more, same, known⟩ := grown.labels
  rw [same]
  exact fun label member => (List.mem_append.mp member).elim (hashable label) fun new => (known label new).2

end Grown

theorem isHashable_label (hashable : ∀ label ∈ g.labels.toList, label.isHashable = true) (inside : v < g.size) :
    (g.label v).isHashable = true := by
  rw [label_eq inside]
  exact hashable _ (Array.mem_toList_iff.mpr (Array.getElem_mem inside))

/-- All labels of a built graph can be members of sets. -/
theorem Built.hashable (built : g.Built) : ∀ label ∈ g.labels.toList, label.isHashable = true := by
  induction built with
  | empty => exact fun _ member => absurd member List.not_mem_nil
  | addVertex _ added ih => exact (Grown.addVertex added).hashable ih
  | @addEdge g source destination name _ ih =>
    rcases addEdge_cases g source destination name with
      ⟨failure, same⟩ | ⟨failure, differ, -, -, same⟩ | ⟨-, -, start, stop, same⟩
    · rw [same]
      exact ih
    · cases start : source.isHashable with
      | true =>
        have grown : Grown [source] g (g.push source) := .push List.mem_cons_self start
        rw [same]
        exact grown.hashable ih
      | false =>
        -- A source that is no label would have failed before it was added.
        obtain ⟨part, again⟩ : ∃ part, g.addEdge source destination name = (g, .error (.misuse (.unhashable part))) :=
          addEdge_of_unhashable differ (.inl start)
        have sizes := congrArg (·.1.size) (again.symm.trans same)
        simp at sizes
    · have first : Grown [source] g (g.ensure source).1 := .ensure List.mem_cons_self start
      have second : Grown [destination] (g.ensure source).1 ((g.ensure source).1.ensure destination).1 :=
        .ensure List.mem_cons_self stop
      rw [same, labels_linkNamed]
      exact second.hashable (first.hashable ih)

end SteinerTrees.Graph
