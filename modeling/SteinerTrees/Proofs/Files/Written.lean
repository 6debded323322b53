import SteinerTrees.Files
import SteinerTrees.Proofs.Value.Reading

/-! # Written files

Where a document can be written depends on the path only. Once it is written, the path leads to it: what stood in the
way was there before or was created on it, and directories stay. -/

namespace SteinerTrees

namespace Path

/-- The steps of a path are those on the way to its last part, and the last part unless it stays in place. -/
theorem steps_eq (path : String) : steps path =
    (parts path).dropLast.filter isStep ++ if isStep (baseName path) then [baseName path] else [] := by
  have nonempty : parts path ≠ [] := fun none => List.splitOn_ne_nil '/' path.toList (List.map_eq_nil_iff.mp none)
  have last : (parts path).getLast nonempty = baseName path := by
    rw [baseName, List.getLastD_eq_getLast?, List.getLast?_eq_some_getLast nonempty]
    rfl
  conv_lhs => rw [steps, ← List.dropLast_append_getLast nonempty, List.filter_append, last]
  rw [List.filter_singleton]
  cases isStep (baseName path) <;> rfl

end Path

namespace Files

variable {files made written : Files} {path step : String} {place here steps : List String} {document : Document}

/-! ## Directories -/

theorem isDirectory_iff : files.isDirectory place = true ↔ place = ["/"] ∨ (∀ step ∈ place, step = "..") ∨
    (∃ directory ∈ files.directories, place <+: directory) ∨
    ∃ entry ∈ files.documents, place.length < entry.1.length ∧ place <+: entry.1 := by
  simp only [isDirectory, Bool.or_eq_true, Bool.and_eq_true, beq_iff_eq, List.all_eq_true, List.any_eq_true,
    List.isPrefixOf_iff_prefix, decide_eq_true_eq, or_assoc]

/-- All directories are still there. -/
def Extends (made files : Files) : Prop := ∀ place, files.isDirectory place = true → made.isDirectory place = true

/-- Steps of which each leads to a directory. -/
def Leads (files : Files) : List String → List String → Prop
  | _, [] => True
  | here, step :: rest => files.isDirectory (Path.follow here step) = true ∧ Leads files (Path.follow here step) rest

theorem Leads.mono (leads : files.Leads here steps) (extended : made.Extends files) : made.Leads here steps := by
  induction steps generalizing here with
  | nil => trivial
  | cons step rest ih => exact ⟨extended _ leads.1, ih leads.2⟩

/-- The files with one more directory. -/
def addDirectory (files : Files) (place : List String) : Files :=
  { files with directories := files.directories ++ [place] }

theorem extends_addDirectory (files : Files) (place : List String) : (files.addDirectory place).Extends files := by
  intro other directory
  rw [isDirectory_iff] at directory ⊢
  exact directory.imp id (Or.imp id (Or.imp
    (fun ⟨directory, member, inside⟩ => ⟨directory, List.mem_append_left _ member, inside⟩) id))

theorem isDirectory_addDirectory (files : Files) (place : List String) :
    (files.addDirectory place).isDirectory place = true :=
  isDirectory_iff.mpr (.inr (.inr (.inl ⟨place, List.mem_append_right _ List.mem_cons_self, List.prefix_refl _⟩)))

/-- Directories are created along the way, and nothing else changes. -/
theorem makeDirectories_spec (done : files.makeDirectories path here steps = .ok made) :
    made.Leads here steps ∧ made.Extends files ∧ made.documents = files.documents := by
  induction steps generalizing files here with
  | nil =>
    cases done
    exact ⟨trivial, fun _ directory => directory, rfl⟩
  | cons step rest ih =>
    rw [makeDirectories] at done
    split at done
    next there =>
      obtain ⟨leads, extended, same⟩ := ih done
      exact ⟨⟨extended _ there, leads⟩, extended, same⟩
    next =>
      split at done
      next => cases done
      next =>
        have done : (files.addDirectory (Path.follow here step)).makeDirectories path (Path.follow here step) rest =
          .ok made := done
        obtain ⟨leads, extended, same⟩ := ih done
        exact ⟨⟨extended _ (isDirectory_addDirectory _ _), leads⟩,
          fun place directory => extended place (extends_addDirectory _ _ place directory), same⟩

theorem walk_append_singleton (leads : files.Leads here steps) (step : String) :
    files.walk here (steps ++ [step]) = some ((steps ++ [step]).foldl Path.follow here) := by
  induction steps generalizing here with
  | nil => simp [walk]
  | cons next rest ih =>
    rw [List.cons_append, walk, List.foldl_cons, if_pos (.inr leads.1), ih leads.2]

/-- Steps to directories end at a directory. -/
theorem Leads.isDirectory (leads : files.Leads here steps) (start : files.isDirectory here = true) :
    files.isDirectory (steps.foldl Path.follow here) = true := by
  induction steps generalizing here with
  | nil => exact start
  | cons step rest ih => exact ih leads.2 leads.1

theorem isDirectory_start (files : Files) (path : String) : files.isDirectory (Path.start path) = true := by
  unfold Path.start
  split
  · exact isDirectory_iff.mpr (.inl rfl)
  · exact isDirectory_iff.mpr (.inr (.inl (by simp)))

/-! ## Writing -/

/-- The files with a document at a place. -/
def put (files : Files) (place : List String) (document : Document) : Files :=
  { files with documents := files.documents.filter (·.1 != place) ++ [(place, document)] }

theorem document?_put (files : Files) (place : List String) (document : Document) :
    (files.put place document).document? place = some document := by
  have none : (files.documents.filter (·.1 != place)).find? (·.1 == place) = none := by
    simp
  simp [document?, put, none]

theorem extends_put (files : Files) (place : List String) (document : Document) :
    (files.put place document).Extends files := by
  intro other directory
  rw [isDirectory_iff] at directory ⊢
  refine directory.imp id (Or.imp id (Or.imp id ?_))
  rintro ⟨entry, member, inside⟩
  by_cases same : entry.1 = place
  · exact ⟨(place, document), List.mem_append_right _ List.mem_cons_self, same ▸ inside⟩
  · exact ⟨entry, List.mem_append_left _ (List.mem_filter.mpr ⟨member, bne_iff_ne.mpr same⟩), inside⟩

/-- When a document is written, and what comes of it. -/
theorem write_eq_ok_iff : files.write path document = .ok written ↔ path ≠ "" ∧ refusal? path = none ∧
    ∃ made, files.makeDirectories (Path.directory path) (Path.start path)
        ((Path.parts path).dropLast.filter Path.isStep) = .ok made ∧
      made.isDirectory (Path.place path) = false ∧ made.isLocked (Path.place path) = false ∧
      written = made.put (Path.place path) document := by
  by_cases named : path = ""
  · refine ⟨fun done => ?_, fun outcome => absurd named outcome.1⟩
    simp only [write, if_pos named] at done
    split at done <;> cases done
  cases accepted : refusal? path with
  | some failure =>
    refine ⟨fun done => ?_, fun outcome => nomatch outcome.2.1⟩
    simp only [write, if_neg named, accepted] at done
    cases done
  | none =>
    simp only [write, accepted, bind_eq_ok_iff, ne_eq, named, if_false, not_false_eq_true, true_and]
    refine exists_congr fun made => and_congr_right fun _ => ?_
    cases made.isDirectory (Path.place path) with
    | true => exact ⟨nofun, nofun⟩
    | false =>
      cases made.isLocked (Path.place path) with
      | true => exact ⟨nofun, nofun⟩
      | false => exact pure_eq_ok_iff.trans ⟨fun same => ⟨rfl, rfl, same⟩, fun outcome => outcome.2.2⟩

/-- Whether a document can be written does not depend on the document. -/
theorem exists_write (writable : files.write path document = .ok written) (other : Document) :
    ∃ written, files.write path other = .ok written := by
  obtain ⟨named, accepted, made, done, free, unlocked, -⟩ := write_eq_ok_iff.mp writable
  exact ⟨_, write_eq_ok_iff.mpr ⟨named, accepted, made, done, free, unlocked, rfl⟩⟩

/-- A path leads to the document that was written at it. -/
theorem locate?_of_write (done : files.write path document = .ok written) :
    written.locate? path = some (Path.place path) ∧ written.document? (Path.place path) = some document := by
  obtain ⟨named, -, made, prepared, free, -, rfl⟩ := write_eq_ok_iff.mp done
  obtain ⟨leads, -, -⟩ := makeDirectories_spec prepared
  have found := document?_put made (Path.place path) document
  have steps := Path.steps_eq path
  -- a last part that stays in place would leave the path at a directory
  have last : Path.isStep (Path.baseName path) = true := by
    by_contra stays
    rw [if_neg stays, List.append_nil] at steps
    have directory := leads.isDirectory (isDirectory_start made path)
    rw [← steps] at directory
    rw [Path.place, directory] at free
    cases free
  rw [if_pos last] at steps
  have way := walk_append_singleton (leads.mono (extends_put made (Path.place path) document)) (Path.baseName path)
  rw [← steps] at way
  refine ⟨?_, found⟩
  rw [locate?, if_neg named, way]
  simp only [Option.bind_eq_bind, Option.bind_some]
  rw [← Path.place, found, last]
  simp

/-- A text that was written is read with its line ends unified. -/
theorem read_of_write {content : String} (done : files.write path (.text content) = .ok written) :
    written.exists? path = true ∧ written.read path = .ok (unified content) := by
  obtain ⟨located, found⟩ := locate?_of_write done
  constructor
  · rw [exists?, located]
    rfl
  · rw [read, at?, located]
    simp only [Option.bind_some, found]

theorem unifyLineEnds_eq {text : List Char} (unreturned : '\r' ∉ text) : Text.unifyLineEnds text = text := by
  induction text with
  | nil => rfl
  | cons c rest ih =>
    rw [List.mem_cons, not_or] at unreturned
    rw [Text.unifyLineEnds.eq_4 _ _ (fun _ first _ => unreturned.1 first.symm) fun first => unreturned.1 first.symm,
      ih unreturned.2]

end Files

end SteinerTrees
