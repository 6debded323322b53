import SteinerTrees.Proofs.Files.Failing
import SteinerTrees.Proofs.InstanceFile.Checked
import SteinerTrees.Proofs.Value.Limits
import SteinerTrees.SteinLib

/-! # How a file can fail to be read

The reader of JSON and the check of instances report what they find amiss, but for values of the wrong type. What both
kinds of files do not report is a directory in the place of a file, or a file that may not be read. A SteinLib file can
announce more nodes than any list has room for. -/

namespace SteinerTrees

variable {files : Files} {path : String}

/-! ## JSON -/

namespace Json

theorem failsOnly_readText (text : List Char) : FailsOnly (·.isWrongValue = true) (readText text) := by
  unfold readText
  split
  · exact .ok _
  · exact .error rfl

theorem failsOnly_readNumber (negative : Bool) (text : List Char) :
    FailsOnly (·.isWrongValue = true) (readNumber negative text) := by
  unfold readNumber
  split
  · exact .error rfl
  · simp only
    split
    · split
      · exact .error rfl
      · exact .ok _
    · exact .ok _

theorem failsOnly_readScalar (text : List Char) : FailsOnly (·.isWrongValue = true) (readScalar text) := by
  unfold readScalar
  split
  · exact (failsOnly_readText _).map _
  all_goals first | exact .ok _ | exact failsOnly_readNumber _ _

/-- With any fuel, what cannot be read is a wrong value. -/
theorem failsOnly_readValue (fuel : Nat) (text : List Char) :
    FailsOnly (·.isWrongValue = true) (readValue fuel text) ∧ FailsOnly (·.isWrongValue = true) (readItems fuel text) ∧
      FailsOnly (·.isWrongValue = true) (readEntries fuel text) := by
  -- Members are read with less fuel, so the three functions are taken together.
  induction fuel generalizing text with
  | zero =>
    refine ⟨?_, ?_, ?_⟩
    · rw [readValue]
      exact .error rfl
    · rw [readItems]
      exact .error rfl
    · rw [readEntries]
      · exact .error rfl
      · nofun
  | succ fuel ih =>
    refine ⟨?_, ?_, ?_⟩
    · rw [readValue.eq_def]
      split
      next less rest same =>
        cases same
        split
        · exact .ok _
        · exact FailsOnly.map _ (ih _).2.1
      next less rest same =>
        cases same
        split
        · exact .ok _
        · exact FailsOnly.map _ (ih _).2.2
      · exact failsOnly_readScalar _
      · exact .error rfl
    · rw [readItems]
      refine (ih text).1.bind fun ⟨item, rest⟩ _ => ?_
      simp only
      split
      · exact (ih _).2.1.bind fun _ _ => .ok _
      · exact .ok _
      · exact .error rfl
    · rw [readEntries.eq_def]
      split
      next less rest same =>
        cases same
        refine (failsOnly_readText _).bind fun ⟨name, rest⟩ _ => ?_
        simp only
        split
        · refine (ih _).1.bind fun ⟨value, rest⟩ _ => ?_
          simp only
          split
          · exact (ih _).2.2.bind fun _ _ => .ok _
          · exact .ok _
          · exact .error rfl
        · exact .error rfl
      · exact .error rfl

theorem failsOnly_read (text : String) : FailsOnly (·.isWrongValue = true) (read text) := by
  refine (failsOnly_readValue _ _).1.bind fun _ _ => ?_
  simp only
  split
  · exact .ok _
  · exact .error rfl

end Json

/-! ## Instances -/

namespace InstanceFile

variable {problem nodes data : Value} {index : Nat} {entries : List (String × Value)}
  {members values known : List Value}

/-- A failure for a wrong value, or for one of the wrong type. -/
def IsRefusal (failure : Failure) : Prop := failure.isWrongValue = true ∨ failure.IsMisuse

theorem failsOnly_ends (name : String) (whole : ∀ edge ∈ members, ∃ label, edge.field name = .ok label) :
    FailsOnly Failure.IsMisuse (ends name members) := by
  refine .mapM fun edge member => ?_
  obtain ⟨label, found⟩ := whole edge member
  rw [found]
  exact label.failsOnly_asLabel

theorem fields_of_hasEnds {edge : Value} (ended : hasEnds edge = true) :
    (∃ label, edge.field "source" = .ok label) ∧ ∃ label, edge.field "target" = .ok label := by
  cases edge with
  | dict entries =>
    simp only [hasEnds, Bool.and_eq_true, Option.isSome_iff_exists] at ended
    obtain ⟨⟨source, left⟩, target, right⟩ := ended
    exact ⟨⟨source, Value.field_dict_eq_ok_iff.mpr left⟩, target, Value.field_dict_eq_ok_iff.mpr right⟩
  | _ => cases ended

theorem failsOnly_knownLabels (nodes : Value) (whole : ∀ edge ∈ members, hasEnds edge = true) :
    FailsOnly Failure.IsMisuse (knownLabels nodes members) := by
  refine nodes.failsOnly_asSet.bind fun _ _ => ?_
  refine (failsOnly_ends "source" fun edge member => (fields_of_hasEnds (whole edge member)).1).bind fun _ _ => ?_
  exact (failsOnly_ends "target" fun edge member => (fields_of_hasEnds (whole edge member)).2).bind fun _ _ => .ok _

theorem failsOnly_strayTerminals (known : List Value) (terminals : Value) :
    FailsOnly Failure.IsMisuse (strayTerminals known terminals) := by
  refine terminals.failsOnly_items.bind fun _ _ => ?_
  exact (FailsOnly.mapM fun label _ => label.failsOnly_asLabel).bind fun _ _ => .ok _

theorem failsOnly_complete (index : Nat) (entries : List (String × Value)) (nodes : Value) :
    FailsOnly Failure.IsMisuse (complete index entries nodes) := by
  unfold complete
  simp only
  split
  · exact .ok _
  · exact (nodes.failsOnly_length.map _).bind fun _ _ => .ok _

theorem failsOnly_check (index : Nat) (data : Value) : FailsOnly IsRefusal (check index data) := by
  unfold check
  split
  next entries =>
    split
    next nodes found =>
      split
      next edges listed =>
        refine (edges.failsOnly_items.imp fun _ => .inr).bind fun members _ => ?_
        simp only
        split
        · exact .error (.inl rfl)
        next whole =>
          have ended := findIdx?_eq_none_iff.mp (Option.eq_none_iff_forall_not_mem.mpr whole)
          refine ((failsOnly_knownLabels nodes ended).imp fun _ => .inr).bind fun known _ => ?_
          refine ((failsOnly_strayTerminals known _).imp fun _ => .inr).bind fun strays _ => ?_
          split
          · exact ((failsOnly_complete index entries nodes).map _).imp fun _ => .inr
          · exact .error (.inl (Failure.isWrongValue_written rfl))
      next => exact .error (.inl rfl)
    next => exact .error (.inl rfl)
  next => exact .error (.inl rfl)

theorem failsOnly_checkAll (index : Nat) (values : List Value) : FailsOnly IsRefusal (checkAll index values) := by
  induction values generalizing index with
  | nil => exact .ok []
  | cons data rest ih => exact (failsOnly_check index data).bind fun _ _ => (ih _).bind fun _ _ => .ok _

theorem failsOnly_ofText (text : String) : FailsOnly IsRefusal (ofText text) := by
  refine ((Json.failsOnly_read text).imp fun _ => .inl).bind fun data _ => ?_
  unfold ofValue
  split
  · exact failsOnly_checkAll 0 _
  · exact failsOnly_checkAll 0 _
  · exact .error (.inl rfl)

end InstanceFile

/-! ## Files -/

namespace SteinLib

theorem failsOnly_readLines (contents : Contents) (part : Part) (number : Nat) (lines : List String) :
    FailsOnly (·.isReported = true) (readLines contents part number lines) := by
  induction lines generalizing contents part number with
  | nil => exact .ok _
  | cons line rest ih =>
    rw [readLines]
    split
    · exact ih _ _ _
    · exact .error rfl

theorem failsOnly_read (text : String) : FailsOnly (·.isReported = true) (read text) := by
  unfold read
  split
  · split
    · exact failsOnly_readLines _ _ _ _
    · exact .error rfl
  · exact .error rfl

/-- Whether a text has more nodes than a list has room for. -/
def Oversized (text : String) (failure : Failure) : Prop :=
  ∃ contents, read text = .ok contents ∧ Value.LacksSpace contents.size failure

/-- What keeps a SteinLib file from being read and is not reported. -/
inductive Unusable (files : Files) (path : String) (failure : Failure) : Prop where
  | unreadable : files.Unreadable path failure → Unusable files path failure
  | oversized {text : String} : files.read path = .ok text → Oversized text failure → Unusable files path failure

end SteinLib

end SteinerTrees
