import SteinerTrees.Files
import SteinerTrees.Proofs.Value.Failing

/-! # How files can fail

To read a file that exists fails if it is a directory, if it may not be read, or if its bytes are no text; the last is
reported. To write one fails for the text of its path, which is reported unless it is too long, or for what stands in
the way. -/

namespace SteinerTrees.Files

variable {files : Files} {path : String}

/-! ## Reading -/

/-- Whether a path leads to a directory and no file. -/
def LeadsToDirectory (files : Files) (path : String) : Prop := files.exists? path = true ∧ files.at? path = none

/-- Whether a path leads to a file that may not be read. -/
def LeadsToLocked (files : Files) (path : String) : Prop := files.at? path = some .locked

/-- What keeps a file that exists from being read and is not reported. -/
inductive Unreadable (files : Files) (path : String) : Failure → Prop where
  | directory : files.LeadsToDirectory path → Unreadable files path (.isDirectory path)
  | locked : files.LeadsToLocked path → Unreadable files path (.accessDenied path)

/-- A file that exists can be read, unless it is a directory or locked, or it is reported that its bytes are no text. -/
theorem failsOnly_read (exist : files.exists? path = true) :
    FailsOnly (fun failure => failure.isReported = true ∨ files.Unreadable path failure) (files.read path) := by
  unfold read
  split
  · exact .ok _
  · exact .ok _
  · split
    · exact .ok _
    · exact .error (.inl rfl)
  next locked => exact .error (.inr (.locked locked))
  next absent =>
    rw [if_pos exist]
    exact .error (.inr (.directory ⟨exist, absent⟩))

/-! ## Writing -/

/-- What keeps a file from being written at a path and is not reported: the path is too long or leads to a directory or
to a file that may not be written, or a document stands where a directory has to be. -/
inductive Obstacle (path : String) : Failure → Prop where
  | tooLong : Obstacle path (.nameTooLong path)
  | directory : Obstacle path (.isDirectory path)
  | locked : Obstacle path (.accessDenied path)
  | file : Obstacle path (.fileInTheWay (Path.directory path))
  | fileOnTheWay : Obstacle path (.notDirectory (Path.directory path))

/-- Whether an obstacle keeps a file from being written. -/
def Refuses (files : Files) (path : String) (failure : Failure) : Prop :=
  Obstacle path failure ∧ ∃ document, files.write path document = .error failure

end SteinerTrees.Files
