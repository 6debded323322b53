import SteinerTrees.Proofs.Value.Distinct

/-! # What a reading came to

A reading that is made of several succeeds exactly if they all do. Once it has succeeded, the value that was read
is known as far as the reading looked at it. -/

namespace SteinerTrees

/-- Two steps succeed if the first one does and the second one does with its result. -/
theorem bind_eq_ok_iff {α β : Type} {first : Except Failure α} {next : α → Except Failure β} {b : β} :
    first >>= next = .ok b ↔ ∃ a, first = .ok a ∧ next a = .ok b := by
  cases first with
  | error failure =>
    constructor
    · intro read
      cases read
    · rintro ⟨_, read, _⟩
      cases read
  | ok a =>
    constructor
    · exact fun read => ⟨a, rfl, read⟩
    · rintro ⟨_, same, read⟩
      cases same
      exact read

/-- Two steps fail as the first one does, or as the second one does with the result of the first. -/
theorem bind_eq_error_iff {α β : Type} {first : Except Failure α} {next : α → Except Failure β} {failure : Failure} :
    first >>= next = .error failure ↔ first = .error failure ∨ ∃ a, first = .ok a ∧ next a = .error failure := by
  cases first with
  | error cause =>
    constructor
    · intro failed
      cases failed
      exact .inl rfl
    · rintro (failed | ⟨_, read, _⟩)
      · cases failed
        rfl
      · cases read
  | ok a =>
    refine ⟨fun failed => .inr ⟨a, rfl, failed⟩, ?_⟩
    rintro (failed | ⟨_, same, failed⟩)
    · cases failed
    · cases same
      exact failed

theorem pure_eq_ok_iff {α : Type} {a b : α} : (pure a : Except Failure α) = .ok b ↔ b = a :=
  ⟨fun same => by cases same; rfl, fun same => by rw [same]; rfl⟩

theorem map_eq_ok_iff {α β : Type} {reading : Except Failure α} {f : α → β} {b : β} :
    f <$> reading = .ok b ↔ ∃ a, reading = .ok a ∧ b = f a := by
  rw [map_eq_pure_bind, bind_eq_ok_iff]
  simp only [pure_eq_ok_iff]

theorem map_eq_error_iff {α β : Type} {reading : Except Failure α} {f : α → β} {failure : Failure} :
    f <$> reading = .error failure ↔ reading = .error failure := by
  cases reading with
  | error cause => rw [Except.map_error, Except.error.injEq, Except.error.injEq]
  | ok a =>
    rw [Except.map_ok]
    exact iff_of_false nofun nofun

/-- A list is read by reading its first member and then the others. -/
theorem mapM_cons_eq_ok_iff {α β : Type} {f : α → Except Failure β} {a : α} {rest : List α} {results : List β} :
    (a :: rest).mapM f = .ok results ↔ ∃ b bs, f a = .ok b ∧ rest.mapM f = .ok bs ∧ results = b :: bs := by
  rw [List.mapM_cons, bind_eq_ok_iff]
  simp only [bind_eq_ok_iff, pure_eq_ok_iff, exists_and_left]

/-- Two lists are read together if each of them is. -/
theorem mapM_append_eq_ok_iff {α β : Type} {f : α → Except Failure β} {values others : List α} {results : List β} :
    (values ++ others).mapM f = .ok results ↔
      ∃ bs cs, values.mapM f = .ok bs ∧ others.mapM f = .ok cs ∧ results = bs ++ cs := by
  rw [List.mapM_append, bind_eq_ok_iff]
  simp only [bind_eq_ok_iff, pure_eq_ok_iff, exists_and_left]

/-- A member of the second of two related lists comes from a member of the first. -/
theorem exists_related {α β : Type} {R : α → β → Prop} {values : List α} {results : List β} {b : β}
    (related : List.Forall₂ R values results) (member : b ∈ results) : ∃ a ∈ values, R a b := by
  induction related with
  | nil => cases member
  | cons first _ ih =>
    rcases List.mem_cons.mp member with rfl | later
    · exact ⟨_, List.mem_cons_self, first⟩
    · obtain ⟨a, among, found⟩ := ih later
      exact ⟨a, List.mem_cons_of_mem _ among, found⟩

/-- The results of a list are those of its members, in their order. -/
theorem forall₂_of_mapM {α β : Type} {f : α → Except Failure β} {values : List α} {results : List β}
    (read : values.mapM f = .ok results) : List.Forall₂ (fun a b => f a = .ok b) values results := by
  induction values generalizing results with
  | nil =>
    rw [List.mapM_nil, pure_eq_ok_iff] at read
    exact read ▸ .nil
  | cons a rest ih =>
    obtain ⟨b, bs, here, there, rfl⟩ := mapM_cons_eq_ok_iff.mp read
    exact .cons here (ih there)

/-- A list can be read if each of its members can. -/
theorem exists_mapM_eq_ok_iff {α β : Type} {f : α → Except Failure β} {values : List α} :
    (∃ results, values.mapM f = .ok results) ↔ ∀ a ∈ values, ∃ b, f a = .ok b := by
  induction values with
  | nil => exact iff_of_true ⟨[], rfl⟩ fun _ member => absurd member List.not_mem_nil
  | cons a rest ih =>
    rw [List.forall_mem_cons, ← ih]
    simp only [mapM_cons_eq_ok_iff]
    constructor
    · rintro ⟨_, b, results, first, others, -⟩
      exact ⟨⟨b, first⟩, results, others⟩
    · rintro ⟨⟨b, first⟩, results, others⟩
      exact ⟨_, b, results, first, others, rfl⟩

/-- Each member of a list that was read has a result. -/
theorem exists_mem_of_mapM {α β : Type} {f : α → Except Failure β} {values : List α} {results : List β} {a : α}
    (read : values.mapM f = .ok results) (member : a ∈ values) : ∃ b ∈ results, f a = .ok b := by
  have back : List.Forall₂ (fun b a => f a = .ok b) results values := (forall₂_of_mapM read).flip
  exact exists_related (R := fun b a => f a = .ok b) back member

/-- Each result of a list that was read is that of a member. -/
theorem exists_source_of_mapM {α β : Type} {f : α → Except Failure β} {values : List α} {results : List β} {b : β}
    (read : values.mapM f = .ok results) (member : b ∈ results) : ∃ a ∈ values, f a = .ok b :=
  exists_related (R := fun a b => f a = .ok b) (forall₂_of_mapM read) member

/-- What is told of the results of a list is told of its members, if it is so for each of them. -/
theorem map_of_mapM {α β γ : Type} {f : α → Except Failure β} {told : β → γ} {tells : α → γ} {values : List α}
    {results : List β} (read : values.mapM f = .ok results) (each : ∀ a b, f a = .ok b → told b = tells a) :
    results.map told = values.map tells := by
  induction values generalizing results with
  | nil =>
    rw [List.mapM_nil, pure_eq_ok_iff] at read
    rw [read, List.map_nil, List.map_nil]
  | cons a rest ih =>
    obtain ⟨b, others, here, there, rfl⟩ := mapM_cons_eq_ok_iff.mp read
    rw [List.map_cons, List.map_cons, each a b here, ih there]

theorem mapM_map_eq_ok {α β γ : Type} {f : β → Except Failure γ} {g : α → β} {h : α → γ} {values : List α}
    (each : ∀ a ∈ values, f (g a) = .ok (h a)) : (values.map g).mapM f = .ok (values.map h) := by
  induction values with
  | nil => rfl
  | cons a rest ih =>
    obtain ⟨here, others⟩ := List.forall_mem_cons.mp each
    exact mapM_cons_eq_ok_iff.mpr ⟨h a, rest.map h, here, ih others, rfl⟩

theorem eq_ok_of_toOption {α : Type} {reading : Except Failure α} {a : α} (read : reading.toOption = some a) :
    reading = .ok a := by
  cases reading with
  | error failure => cases read
  | ok b => exact congrArg Except.ok (Option.some.inj read)

namespace Value

variable {value a b : Value} {values labels : List Value} {size : Nat}

theorem mapM_asLabel_eq_ok_iff :
    values.mapM asLabel = .ok labels ↔ (∀ value ∈ values, value.isHashable = true) ∧ labels = values := by
  induction values generalizing labels with
  | nil =>
    rw [List.mapM_nil, pure_eq_ok_iff]
    exact ⟨fun same => ⟨fun _ member => absurd member List.not_mem_nil, same⟩, fun both => both.2⟩
  | cons value rest ih =>
    simp only [mapM_cons_eq_ok_iff, asLabel_eq_ok_iff, ih, List.forall_mem_cons]
    constructor
    · rintro ⟨_, _, ⟨first, rfl⟩, ⟨others, rfl⟩, rfl⟩
      exact ⟨⟨first, others⟩, rfl⟩
    · rintro ⟨⟨first, others⟩, rfl⟩
      exact ⟨value, rest, ⟨first, rfl⟩, ⟨others, rfl⟩, rfl⟩

theorem asSet_eq_ok_iff : value.asSet = .ok labels ↔
    ∃ members, value.items = .ok members ∧ (∀ member ∈ members, member.isHashable = true) ∧
    labels = distinct members := by
  rw [asSet, bind_eq_ok_iff]
  simp only [bind_eq_ok_iff, mapM_asLabel_eq_ok_iff, pure_eq_ok_iff]
  constructor
  · rintro ⟨_, read, members, ⟨hashable, rfl⟩, rfl⟩
    exact ⟨members, read, hashable, rfl⟩
  · rintro ⟨members, read, hashable, rfl⟩
    exact ⟨members, read, members, ⟨hashable, rfl⟩, rfl⟩

theorem asPair_eq_ok_iff : value.asPair = .ok (a, b) ↔ value.items = .ok [a, b] := by
  rw [asPair, bind_eq_ok_iff]
  constructor
  · rintro ⟨members, read, pair⟩
    match members, pair with
    | [_, _], rfl => exact read
  · exact fun read => ⟨[a, b], read, rfl⟩

/-- What has members has as many of them as its length. -/
theorem length_of_items (read : value.items = .ok values) : value.length = .ok values.length := by
  cases value <;> cases read <;> simp only [length, List.length_map]

/-- A value that differs from itself is known by its key. -/
theorem isNaN_iff : a.isNaN = true ↔ a.key = [.float .nan] := by
  cases a with
  | float x =>
    rw [isNaN, key, List.cons.injEq, and_iff_left rfl, floatPart]
    split_ifs with unordered
    · exact iff_of_true unordered rfl
    · refine iff_of_false unordered fun same => ?_
      split at same
      · cases same
      · cases same
        exact unordered rfl
  | _ => simp [isNaN, key]

theorem Reflexive.of_key_eq (reflexive : a.Reflexive) (same : b.key = a.key) : b.Reflexive := by
  rw [Reflexive, ← Bool.not_eq_true, isNaN_iff] at reflexive ⊢
  rwa [same]

theorem same_null_iff : a.same .null = true ↔ a = .null := by
  rw [same_iff]
  refine ⟨?_, fun same => by rw [same]⟩
  intro same
  cases a with
  | null => rfl
  | float x =>
    unfold key floatPart at same
    split_ifs at same
    · cases same
    · split at same <;> cases same
  | _ => cases same

end Value

end SteinerTrees
