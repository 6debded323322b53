import SteinerTrees.Proofs.Graph.FirstPaths

/-! # Searches that end early

A search for one vertex can end as soon as that vertex has been visited, and its way can be read off by going back from
vertex to vertex until the source is reached. What is visited later leaves earlier visits alone, so the way is the same
as after the whole search. -/

namespace SteinerTrees.Hops

variable {adjacency : Adjacency} {source target u v d : Nat} {way other found : List Nat}
  {visits more : Array (Option Visit)} {visit : Visit} {s : Search}

/-- The vertices from the source to another one, found by going back from each vertex to the one before it. -/
inductive Retraced (visits : Array (Option Visit)) (source : Nat) : Nat → List Nat → Prop
  | source : Retraced visits source source [source]
  | back {v : Nat} {visit : Visit} {way : List Nat} : v ≠ source → visit? visits v = some visit →
      Retraced visits source visit.parent way → Retraced visits source v (way ++ [v])

theorem Retraced.unique (first : Retraced visits source v way) (second : Retraced visits source v other) :
    way = other := by
  induction first generalizing other with
  | source =>
    cases second with
    | source => rfl
    | back away => exact absurd rfl away
  | back away reached _ ih =>
    cases second with
    | source => exact absurd rfl away
    | back _ again rest =>
      cases reached.symm.trans again
      rw [ih rest]

/-- Visits stay as they are. -/
def Keeps (visits more : Array (Option Visit)) : Prop :=
  ∀ v visit, visit? visits v = some visit → visit? more v = some visit

theorem Keeps.trans {last : Array (Option Visit)} (first : Keeps visits more) (second : Keeps more last) :
    Keeps visits last := fun v visit reached => second v visit (first v visit reached)

end SteinerTrees.Hops
