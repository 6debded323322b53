import SteinerTrees.Proofs.Store.History

/-! # Adding in steps

A call changes a store in several steps. When a step fails, what the steps before it have changed stays changed. Adding
a vertex or an edge in steps comes to what `Store.addVertex` and `Store.addEdge` do at once. So once a call has begun
to enter a new vertex or a new link, it enters the whole of it. -/

namespace SteinerTrees

/-- Steps that read and change a store, up to the first that fails. -/
abbrev Procedure := ExceptT Failure (StateM Store)

namespace Procedure

variable {α β : Type} {s t : Store} {label source destination name : Value} {u v : Nat} {link : Link}
  {failure : Failure}

/-- What a procedure comes to, and the store that it leaves behind. -/
def outcome (procedure : Procedure α) (s : Store) : Except Failure α × Store := procedure.run.run s

def refuseIf (condition : Bool) (failure : Failure) : Procedure Unit := if condition then throw failure else pure ()

/-- The vertex that is found under a label. -/
def find (label : Value) : Procedure (Option Nat) := do
  let label ← label.asLabel
  return (← get).byLabel.lookup? label

def addVertex (label : Value) : Procedure Nat := do
  let found ← find label
  refuseIf found.isSome (Failure.duplicateVertex label).written
  let v := (← get).size
  let place ← label.asLabel
  modify fun s => { s with positions := s.positions.enter place v }
  modify fun s => { s with vertices := s.vertices.push { label } }
  let place ← label.asLabel
  modify fun s => { s with byLabel := s.byLabel.enter place v }
  return v

/-- The vertex that was found under a label, or a new one with that label. -/
def ensure (label : Value) : Option Nat → Procedure Nat
  | some v => pure v
  | none => addVertex label

/-- Enters one vertex among the neighbours of another, under its label. -/
def connect (u v : Nat) (link : Link) : Procedure Unit := do
  let _ ← ((← get).vertexAt v).label.asLabel
  modify fun s => s.connect u v link

/-- Adds a link and enters it at both ends. -/
def addLink (name : Value) (u v : Nat) : Procedure Edge := do
  let link : Link := ⟨name, u, v⟩
  modify fun s => { s with links := s.links.push link }
  connect u v link
  connect v u link
  return (← get).edge link

def addEdge (source destination name : Value) : Procedure Edge := do
  refuseIf (source.equal destination) (Failure.selfLoop source).written
  let first ← find source
  let second ← find destination
  refuseIf ((← get).areLinked first second) (Failure.duplicateEdge source destination).written
  let u ← ensure source first
  let v ← ensure destination second
  addLink (← Graph.nameOf source destination name) u v

/-! ## What the steps come to -/

/-- Every label can be looked up. -/
def Labelled (s : Store) : Prop := ∀ v, (s.vertexAt v).label.isHashable = true

theorem Labelled.addVertex (labelled : Labelled s) (added : s.addVertex label = .ok (t, u)) : Labelled t := by
  intro v
  obtain ⟨same, read, done⟩ := bind_eq_ok_iff.mp added
  obtain ⟨hashable, rfl⟩ := Value.asLabel_eq_ok_iff.mp read
  split at done
  · cases done
  · cases done
    have old := labelled v
    simp only [Store.vertexAt, Array.getD_eq_getD_getElem?, Array.getElem?_push] at old ⊢
    split
    · exact hashable
    · exact old

theorem Labelled.ensure (labelled : Labelled s) {found : Option Nat} (done : s.ensure label found = .ok (t, u)) :
    Labelled t := by
  cases found with
  | some v =>
    cases done
    exact labelled
  | none => exact labelled.addVertex done

theorem Labelled.connect (labelled : Labelled s) : Labelled (s.connect u v link) := by
  intro w
  rw [Store.label_connect]
  exact labelled w

end Procedure

end SteinerTrees
