import SteinerTrees.Graph.Hops
import Mathlib.Data.Finset.Card
import Mathlib.Data.Finset.Range
import Mathlib.Data.List.Chain
import Mathlib.Data.List.Nodup
import Mathlib.Logic.Relation

/-! # Breadth-first search finds the fewest hops

The search visits exactly the vertices that walks from the source lead to, and counts the steps of a shortest
walk. During the search the queue is ordered by hops, no visit is more than one hop beyond a queued vertex,
and a vertex that has left the queue has handed its hops on to its neighbours. Tracing the visits back gives a
shortest path without repetition. -/

namespace SteinerTrees

theorem getD_set {α : Type} (xs : Array α) (i j : Nat) (x default : α) :
    (xs.set! i x).getD j default = if i = j ∧ i < xs.size then x else xs.getD j default := by
  rw [Array.set!_eq_setIfInBounds, Array.getD_eq_getD_getElem?, Array.getD_eq_getD_getElem?,
    Array.getElem?_setIfInBounds]
  split_ifs with same inside both both both
  · rfl
  · exact absurd ⟨same, inside⟩ both
  · exact absurd both.2 inside
  · rw [Option.getD_none, Array.getElem?_eq_none (by omega), Option.getD_none]
  · exact absurd both.1 same
  · rfl

namespace Hops

/-- Walks of some steps along neighbours from a source. -/
inductive Walk (adjacency : Adjacency) (source : Nat) : Nat → Nat → Prop
  | start : Walk adjacency source 0 source
  | step {steps u v : Nat} :
      Walk adjacency source steps u → v ∈ adjacency.getD u [] → Walk adjacency source (steps + 1) v

/-- All neighbours are vertices. -/
def Bounded (adjacency : Adjacency) : Prop := ∀ u, ∀ v ∈ adjacency.getD u [], v < adjacency.size

variable {adjacency : Adjacency} {source u v w d : Nat} {visit : Visit} {s : Search}
  {waits : Nat → Nat → Prop} {visits : Array (Option Visit)}

theorem visit?_set (inside : u < visits.size) :
    visit? (visits.set! u (some visit)) v = if u = v then some visit else visit? visits v := by
  simp only [visit?, getD_set, inside, and_true]

/-- Every visit starts at the source or comes from a visited neighbour that is one hop nearer. -/
def Sound (adjacency : Adjacency) (source : Nat) (visits : Array (Option Visit)) : Prop :=
  ∀ v visit, visit? visits v = some visit →
    (visit.hops = 0 ∧ v = source) ∨ ∃ before, visit? visits visit.parent = some before ∧
      visit.hops = before.hops + 1 ∧ v ∈ adjacency.getD visit.parent []

/-- What holds during a search. `waits u v` tells the neighbours `v` of a vertex `u` outside the queue that have
not been looked at. -/
structure Invariant (adjacency : Adjacency) (source : Nat) (waits : Nat → Nat → Prop) (s : Search) :
    Prop where
  size : s.visits.size = adjacency.size
  root : visit? s.visits source = some ⟨0, source⟩
  sound : Sound adjacency source s.visits
  queued : ∀ u ∈ s.queue, ∃ visit, visit? s.visits u = some visit
  sorted : s.queue.Pairwise fun u v => ∀ first second,
    visit? s.visits u = some first → visit? s.visits v = some second → first.hops ≤ second.hops
  done : ∀ u visit, visit? s.visits u = some visit → u ∉ s.queue → ∀ v ∈ adjacency.getD u [],
    v < adjacency.size →
    ¬ waits u v → ∃ next, visit? s.visits v = some next ∧ next.hops ≤ visit.hops + 1

/-- No visit is more than one hop beyond a queued vertex. -/
def Close (s : Search) : Prop := ∀ u ∈ s.queue, ∀ near, visit? s.visits u = some near →
  ∀ v far, visit? s.visits v = some far → far.hops ≤ near.hops + 1

/-- While the neighbours of `u` are looked at, the queue is not nearer than `u`, and nothing is more than one
hop beyond it. -/
structure Expanding (u d : Nat) (s : Search) : Prop where
  current : ∃ visit, visit? s.visits u = some visit ∧ visit.hops = d
  low : ∀ v ∈ s.queue, ∀ visit, visit? s.visits v = some visit → d ≤ visit.hops
  high : ∀ v visit, visit? s.visits v = some visit → visit.hops ≤ d + 1

theorem Expanding.close (expanding : Expanding u d s) : Close s := by
  intro v member near visited w far reached
  have low := expanding.low v member near visited
  have high := expanding.high w far reached
  omega

/-! ## Discovering one neighbour -/

theorem discover_of_visited (visited : visit? s.visits v = some visit) : discover u d s v = s := by
  rw [discover, if_neg]
  rintro ⟨-, fresh⟩
  rw [visited] at fresh
  cases fresh

theorem discover_of_fresh (inside : v < s.visits.size) (fresh : visit? s.visits v = none) :
    discover u d s v = ⟨s.visits.set! v (some ⟨d + 1, u⟩), s.queue ++ [v]⟩ := if_pos ⟨inside, fresh⟩

/-- A first visit of `v` leaves the visits of other vertices as they were. -/
theorem visit?_discover_iff (inside : v < s.visits.size) (fresh : visit? s.visits v = none) :
    visit? (discover u d s v).visits w = some visit ↔
      (w = v ∧ visit = ⟨d + 1, u⟩) ∨ visit? s.visits w = some visit := by
  rw [discover_of_fresh inside fresh, visit?_set inside]
  split_ifs with same
  · subst same
    simp [fresh, eq_comm]
  · simp [Ne.symm same]

theorem visit?_discover_self (inside : v < s.visits.size) (fresh : visit? s.visits v = none) :
    visit? (discover u d s v).visits v = some ⟨d + 1, u⟩ := (visit?_discover_iff inside fresh).mpr (.inl ⟨rfl, rfl⟩)

theorem visit?_discover_of_visited (inside : v < s.visits.size) (fresh : visit? s.visits v = none)
    (reached : visit? s.visits w = some visit) : visit? (discover u d s v).visits w = some visit :=
  (visit?_discover_iff inside fresh).mpr (.inr reached)

theorem queue_discover (inside : v < s.visits.size) (fresh : visit? s.visits v = none) :
    (discover u d s v).queue = s.queue ++ [v] := by rw [discover_of_fresh inside fresh]

/-- A visited neighbour was visited in time. -/
theorem Invariant.discover_visited {rest : List Nat} {old : Visit}
    (invariant : Invariant adjacency source (fun x y => x = u ∧ y ∈ v :: rest) s)
    (expanding : Expanding u d s) (visited : visit? s.visits v = some old) :
    Invariant adjacency source (fun x y => x = u ∧ y ∈ rest) s where
  size := invariant.size
  root := invariant.root
  sound := invariant.sound
  queued := invariant.queued
  sorted := invariant.sorted
  done x visit reached outside y member inside waits := by
    by_cases same : x = u ∧ y = v
    · obtain ⟨rfl, rfl⟩ := same
      obtain ⟨own, at_x, hops⟩ := expanding.current
      have high := expanding.high y old visited
      rw [at_x] at reached
      cases reached
      exact ⟨old, visited, by omega⟩
    · apply invariant.done x visit reached outside y member inside
      rintro ⟨equal, other⟩
      rcases List.mem_cons.mp other with rfl | other
      · exact same ⟨equal, rfl⟩
      · exact waits ⟨equal, other⟩

/-- A first visit comes one hop after the vertex whose neighbours are looked at, at the end of the queue. -/
theorem Invariant.discover_fresh {rest : List Nat}
    (invariant : Invariant adjacency source (fun x y => x = u ∧ y ∈ v :: rest) s)
    (expanding : Expanding u d s)
    (neighbor : v ∈ adjacency.getD u []) (inside : v < s.visits.size) (fresh : visit? s.visits v = none) :
    Invariant adjacency source (fun x y => x = u ∧ y ∈ rest) (discover u d s v) := by
  obtain ⟨own, at_u, hops⟩ := expanding.current
  have queue : (discover u d s v).queue = s.queue ++ [v] := queue_discover inside fresh
  constructor
  case size =>
    rw [discover_of_fresh inside fresh, Array.set!_eq_setIfInBounds, Array.size_setIfInBounds, invariant.size]
  case root => exact visit?_discover_of_visited inside fresh invariant.root
  case sound =>
    intro x visit reached
    rcases (visit?_discover_iff inside fresh).mp reached with ⟨rfl, rfl⟩ | reached
    · exact .inr ⟨own, visit?_discover_of_visited inside fresh at_u, by rw [hops], neighbor⟩
    · rcases invariant.sound x visit reached with start | ⟨before, known, count, member⟩
      · exact .inl start
      · exact .inr ⟨before, visit?_discover_of_visited inside fresh known, count, member⟩
  case queued =>
    intro x member
    rcases List.mem_append.mp (queue ▸ member) with old | new
    · obtain ⟨visit, reached⟩ := invariant.queued x old
      exact ⟨visit, visit?_discover_of_visited inside fresh reached⟩
    · exact ⟨⟨d + 1, u⟩, by rw [List.mem_singleton.mp new, visit?_discover_self inside fresh]⟩
  case sorted =>
    rw [queue]
    refine List.pairwise_append.mpr ⟨?_, List.pairwise_singleton _ _, ?_⟩
    · apply invariant.sorted.imp_of_mem
      intro x y first second ordered near far reached next
      have apart : ∀ z ∈ s.queue, z ≠ v := by
        rintro z member rfl
        obtain ⟨visit, visited⟩ := invariant.queued z member
        rw [fresh] at visited
        cases visited
      have early := ((visit?_discover_iff inside fresh).mp reached).resolve_left fun new => apart x first new.1
      have late := ((visit?_discover_iff inside fresh).mp next).resolve_left fun new => apart y second new.1
      exact ordered near far early late
    · intro x first y second near far reached next
      rw [List.mem_singleton.mp second] at next
      have latest : far.hops = d + 1 := by
        rcases (visit?_discover_iff inside fresh).mp next with ⟨-, rfl⟩ | old
        · rfl
        · rw [fresh] at old
          cases old
      rcases (visit?_discover_iff inside fresh).mp reached with ⟨-, rfl⟩ | old
      · exact latest.ge
      · exact latest ▸ expanding.high x near old
  case done =>
    intro x visit reached outside y member below waits
    rw [queue, List.mem_append, not_or, List.mem_singleton] at outside
    have known := ((visit?_discover_iff inside fresh).mp reached).resolve_left fun new => outside.2 new.1
    by_cases same : x = u ∧ y = v
    · obtain ⟨rfl, rfl⟩ := same
      rw [at_u] at known
      cases known
      exact ⟨⟨d + 1, x⟩, visit?_discover_self inside fresh, by rw [hops]⟩
    · obtain ⟨next, seen, count⟩ := invariant.done x visit known outside.1 y member below (by
        rintro ⟨equal, other⟩
        rcases List.mem_cons.mp other with rfl | other
        · exact same ⟨equal, rfl⟩
        · exact waits ⟨equal, other⟩)
      exact ⟨next, visit?_discover_of_visited inside fresh seen, count⟩

theorem Expanding.discover_fresh (expanding : Expanding u d s) (inside : v < s.visits.size)
    (fresh : visit? s.visits v = none) : Expanding u d (discover u d s v) := by
  obtain ⟨own, at_u, hops⟩ := expanding.current
  have queue : (discover u d s v).queue = s.queue ++ [v] := queue_discover inside fresh
  refine ⟨⟨own, visit?_discover_of_visited inside fresh at_u, hops⟩, ?_, ?_⟩
  · intro x member visit reached
    rcases (visit?_discover_iff inside fresh).mp reached with ⟨rfl, rfl⟩ | known
    · exact Nat.le_succ d
    · rcases List.mem_append.mp (queue ▸ member) with old | new
      · exact expanding.low x old visit known
      · rw [List.mem_singleton.mp new, fresh] at known
        cases known
  · intro x visit reached
    rcases (visit?_discover_iff inside fresh).mp reached with ⟨rfl, rfl⟩ | known
    · exact le_rfl
    · exact expanding.high x visit known

/-- Looking at neighbours keeps what holds during a search, and they no longer wait. -/
theorem Invariant.foldl_discover (bounded : Bounded adjacency) {found : List Nat} :
    ∀ {s : Search}, Invariant adjacency source (fun x y => x = u ∧ y ∈ found) s → Expanding u d s →
      (∀ v ∈ found, v ∈ adjacency.getD u []) →
      Invariant adjacency source (fun _ _ => False) (found.foldl (discover u d) s) ∧
        Expanding u d (found.foldl (discover u d) s) := by
  induction found with
  | nil =>
    intro s invariant expanding _
    have none_wait : (fun x y : Nat => x = u ∧ y ∈ []) = fun _ _ => False := by
      funext x y
      simp only [List.not_mem_nil, and_false]
    exact ⟨none_wait ▸ invariant, expanding⟩
  | cons v rest ih =>
    intro s invariant expanding neighbors
    have neighbor := neighbors v List.mem_cons_self
    have others := fun w member => neighbors w (List.mem_cons_of_mem v member)
    rw [List.foldl_cons]
    cases visited : visit? s.visits v with
    | some old =>
      rw [discover_of_visited visited]
      exact ih (invariant.discover_visited expanding visited) expanding others
    | none =>
      have inside : v < s.visits.size := invariant.size ▸ bounded u v neighbor
      exact ih (invariant.discover_fresh expanding neighbor inside visited)
        (expanding.discover_fresh inside visited) others

/-! ## Whole searches -/

/-- When the first vertex leaves the queue, its neighbours wait to be looked at. -/
theorem Invariant.pop {queue : List Nat}
    (invariant : Invariant adjacency source (fun _ _ => False) ⟨visits, u :: queue⟩)
    (close : Close ⟨visits, u :: queue⟩) : ∃ own, visit? visits u = some own ∧
      Invariant adjacency source (fun x y => x = u ∧ y ∈ adjacency.getD u []) ⟨visits, queue⟩ ∧
      Expanding u own.hops ⟨visits, queue⟩ := by
  obtain ⟨own, at_u⟩ := invariant.queued u List.mem_cons_self
  obtain ⟨first, sorted⟩ := List.pairwise_cons.mp invariant.sorted
  refine ⟨own, at_u, ⟨invariant.size, invariant.root, invariant.sound,
    fun v member => invariant.queued v (List.mem_cons_of_mem u member), sorted, ?_⟩,
    ⟨own, at_u, rfl⟩, fun v member visit reached => first v member own visit at_u reached,
    fun v visit reached => close u List.mem_cons_self own at_u v visit reached⟩
  intro x visit reached outside y member inside waits
  apply invariant.done x visit reached _ y member inside not_false
  rintro (_ | ⟨_, queued⟩)
  · exact waits ⟨rfl, member⟩
  · exact outside queued

/-- A step looks at the neighbours of the vertex that leaves the queue. -/
theorem step_cons {queue : List Nat} (reached : visit? visits u = some visit) : step adjacency ⟨visits, u :: queue⟩ =
    (adjacency.getD u []).foldl (discover u visit.hops) ⟨visits, queue⟩ := by
  simp only [step, reached, Option.map_some, Option.getD_some]

/-- One step of a search keeps what holds between steps. -/
theorem Invariant.step (bounded : Bounded adjacency)
    (invariant : Invariant adjacency source (fun _ _ => False) s) (close : Close s) :
    Invariant adjacency source (fun _ _ => False) (step adjacency s) ∧ Close (Hops.step adjacency s) := by
  rcases s with ⟨visits, _ | ⟨u, queue⟩⟩
  · exact ⟨invariant, close⟩
  · obtain ⟨own, at_u, popped, expanding⟩ := invariant.pop close
    rw [step_cons at_u]
    have result := popped.foldl_discover bounded expanding fun _ member => member
    exact ⟨result.1, result.2.close⟩

theorem Invariant.run (bounded : Bounded adjacency) (fuel : Nat) :
    ∀ {s : Search}, Invariant adjacency source (fun _ _ => False) s → Close s →
      Invariant adjacency source (fun _ _ => False) (run adjacency fuel s) := by
  induction fuel with
  | zero => exact fun invariant _ => invariant
  | succ fuel ih =>
    intro s invariant close
    have next := invariant.step bounded close
    exact ih next.1 next.2

/-- At the start only the source is visited. -/
theorem visit?_start_iff {size : Nat} (inside : source < size) :
    visit? (start size source).visits v = some visit ↔ v = source ∧ visit = ⟨0, source⟩ := by
  rw [start, visit?_set (by rwa [Array.size_replicate]), visit?, Array.getD_eq_getD_getElem?,
    Array.getElem?_replicate]
  by_cases same : source = v
  · simp [same, eq_comm]
  · split_ifs <;> simp [Ne.symm same]

theorem Invariant.start (inside : source < adjacency.size) :
    Invariant adjacency source (fun _ _ => False) (start adjacency.size source) ∧
      Close (Hops.start adjacency.size source) := by
  have root := (visit?_start_iff inside).mpr ⟨rfl, rfl⟩
  refine ⟨⟨?_, root, ?_, ?_, List.pairwise_singleton _ _, ?_⟩, ?_⟩
  · rw [Hops.start, Array.set!_eq_setIfInBounds, Array.size_setIfInBounds, Array.size_replicate]
  · intro v visit reached
    obtain ⟨rfl, rfl⟩ := (visit?_start_iff inside).mp reached
    exact .inl ⟨rfl, rfl⟩
  · intro v member
    rw [List.mem_singleton.mp member]
    exact ⟨_, root⟩
  · intro v visit reached outside
    exact absurd (List.mem_singleton.mpr ((visit?_start_iff inside).mp reached).1) outside
  · intro u _ near reached v far next
    rw [((visit?_start_iff inside).mp reached).2, ((visit?_start_iff inside).mp next).2]
    exact Nat.zero_le _

/-- The unvisited vertices and the queued ones: what is left to do. -/
def remaining (s : Search) : Nat :=
  ((Finset.range s.visits.size).filter fun v => visit? s.visits v = none).card + s.queue.length

theorem remaining_discover (s : Search) : remaining (discover u d s v) = remaining s := by
  by_cases new : v < s.visits.size ∧ visit? s.visits v = none
  · obtain ⟨inside, fresh⟩ := new
    have erased :
        ((Finset.range s.visits.size).filter fun w => visit? (s.visits.set! v (some ⟨d + 1, u⟩)) w = none) =
        ((Finset.range s.visits.size).filter fun w => visit? s.visits w = none).erase v := by
      ext w
      simp only [Finset.mem_filter, Finset.mem_erase, visit?_set inside]
      by_cases same : v = w
      · simp [same]
      · simp [same, Ne.symm same]
    have member : v ∈ (Finset.range s.visits.size).filter fun w => visit? s.visits w = none :=
      Finset.mem_filter.mpr ⟨Finset.mem_range.mpr inside, fresh⟩
    rw [discover_of_fresh inside fresh]
    simp only [remaining, Array.set!_eq_setIfInBounds, Array.size_setIfInBounds, List.length_append,
      List.length_singleton]
    rw [Array.set!_eq_setIfInBounds] at erased
    rw [erased, Finset.card_erase_of_mem member]
    have positive := Finset.card_pos.mpr ⟨v, member⟩
    omega
  · rw [discover, if_neg new]

theorem remaining_foldl_discover (found : List Nat) :
    ∀ s : Search, remaining (found.foldl (discover u d) s) = remaining s := by
  induction found with
  | nil => exact fun _ => rfl
  | cons v rest ih => exact fun s => (ih _).trans (remaining_discover s)

theorem remaining_step (adjacency : Adjacency) (open_ : s.queue ≠ []) :
    remaining (step adjacency s) + 1 = remaining s := by
  rcases s with ⟨visits, _ | ⟨u, queue⟩⟩
  · exact absurd rfl open_
  · simp only [step, remaining_foldl_discover]
    simp only [remaining, List.length_cons]
    omega

theorem run_of_closed (closed : s.queue = []) (fuel : Nat) : run adjacency fuel s = s := by
  have same : step adjacency s = s := by simp only [step, closed]
  induction fuel with
  | zero => rfl
  | succ fuel ih => rw [run, same, ih]

/-- A search with as much fuel as there is left to do empties its queue. -/
theorem queue_run (adjacency : Adjacency) (fuel : Nat) :
    ∀ {s : Search}, remaining s ≤ fuel → (run adjacency fuel s).queue = [] := by
  induction fuel with
  | zero =>
    intro s enough
    apply List.eq_nil_of_length_eq_zero
    rw [run]
    simp only [remaining] at enough
    omega
  | succ fuel ih =>
    intro s enough
    by_cases closed : s.queue = []
    · rw [run_of_closed closed, closed]
    · have fewer := remaining_step adjacency closed
      exact ih (by omega)

theorem remaining_start (inside : source < adjacency.size) :
    remaining (start adjacency.size source) ≤ adjacency.size := by
  have size : (start adjacency.size source).visits.size = adjacency.size := (Invariant.start inside).1.size
  have unvisited : ((Finset.range adjacency.size).filter fun v =>
      visit? (start adjacency.size source).visits v = none) ⊆ (Finset.range adjacency.size).erase source := by
    intro v member
    obtain ⟨below, fresh⟩ := Finset.mem_filter.mp member
    refine Finset.mem_erase.mpr ⟨?_, below⟩
    rintro rfl
    rw [(Invariant.start inside).1.root] at fresh
    cases fresh
  have count := Finset.card_le_card unvisited
  rw [Finset.card_erase_of_mem (Finset.mem_range.mpr inside), Finset.card_range] at count
  rw [remaining, size, show (start adjacency.size source).queue = [source] from rfl, List.length_singleton]
  omega

/-- The visits of a whole search: sound, and closed under neighbours. -/
theorem explore_spec (bounded : Bounded adjacency) (inside : source < adjacency.size) :
    visit? (explore adjacency source) source = some ⟨0, source⟩ ∧
    Sound adjacency source (explore adjacency source) ∧
      ∀ u visit, visit? (explore adjacency source) u = some visit → ∀ v ∈ adjacency.getD u [],
        ∃ next, visit? (explore adjacency source) v = some next ∧ next.hops ≤ visit.hops + 1 := by
  have begun := Invariant.start inside
  have finished := begun.1.run bounded adjacency.size begun.2
  have closed := queue_run adjacency adjacency.size (remaining_start inside)
  refine ⟨finished.root, finished.sound, ?_⟩
  intro u visit reached v member
  exact finished.done u visit reached (by rw [closed]; exact List.not_mem_nil) v member (bounded u v member)
    not_false

/-- Induction over visits: the source, and then each vertex after the one it was visited from. -/
theorem Sound.induction {P : Nat → Visit → Prop} (sound : Sound adjacency source visits)
    (root : ∀ visit, visit? visits source = some visit → visit.hops = 0 → P source visit)
    (step : ∀ v visit before, visit? visits v = some visit → visit? visits visit.parent = some before →
      visit.hops = before.hops + 1 → v ∈ adjacency.getD visit.parent [] → P visit.parent before → P v visit)
    (reached : visit? visits v = some visit) : P v visit := by
  induction count : visit.hops generalizing v visit with
  | zero =>
    rcases sound v visit reached with ⟨-, rfl⟩ | ⟨before, -, later, -⟩
    · exact root visit reached count
    · omega
  | succ hops ih =>
    rcases sound v visit reached with ⟨zero, -⟩ | ⟨before, known, later, neighbor⟩
    · omega
    · exact step v visit before reached known later neighbor (ih known (by omega))

theorem Sound.walk (sound : Sound adjacency source visits) (reached : visit? visits v = some visit) :
    Walk adjacency source visit.hops v := by
  refine sound.induction (P := fun v visit => Walk adjacency source visit.hops v) ?root ?step reached
  case root =>
    intro visit _ zero
    rw [zero]
    exact .start
  case step =>
    intro v visit before _ _ later neighbor walk
    rw [later]
    exact walk.step neighbor

/-- A search visits what walks lead to, in no more hops than the walk has steps. -/
theorem exists_visit_of_walk (bounded : Bounded adjacency) (inside : source < adjacency.size) {steps : Nat}
    (walk : Walk adjacency source steps v) :
    ∃ visit, visit? (explore adjacency source) v = some visit ∧ visit.hops ≤ steps := by
  obtain ⟨root, -, closed⟩ := explore_spec bounded inside
  induction walk with
  | start => exact ⟨_, root, le_rfl⟩
  | step _ neighbor ih =>
    obtain ⟨visit, reached, fewer⟩ := ih
    obtain ⟨next, seen, count⟩ := closed _ visit reached _ neighbor
    exact ⟨next, seen, by omega⟩

/-- The hops of a visit are the steps of a shortest walk. -/
theorem walk_of_visit (bounded : Bounded adjacency) (inside : source < adjacency.size)
    (reached : visit? (explore adjacency source) v = some visit) : Walk adjacency source visit.hops v :=
  (explore_spec bounded inside).2.1.walk reached

theorem exists_walk_iff : (∃ steps, Walk adjacency source steps v) ↔
    Relation.ReflTransGen (fun a b => b ∈ adjacency.getD a []) source v := by
  constructor
  · rintro ⟨steps, walk⟩
    induction walk with
    | start => exact .refl
    | step _ neighbor ih => exact ih.tail neighbor
  · intro joined
    induction joined with
    | refl => exact ⟨0, .start⟩
    | tail _ neighbor ih =>
      obtain ⟨steps, walk⟩ := ih
      exact ⟨steps + 1, walk.step neighbor⟩

/-- A search visits what steps along neighbours lead to from its source. -/
theorem exists_visit_iff (bounded : Bounded adjacency) (inside : source < adjacency.size) :
    (∃ visit, visit? (explore adjacency source) v = some visit) ↔
      Relation.ReflTransGen (fun a b => b ∈ adjacency.getD a []) source v := by
  rw [← exists_walk_iff]
  constructor
  · rintro ⟨visit, reached⟩
    exact ⟨_, walk_of_visit bounded inside reached⟩
  · rintro ⟨steps, walk⟩
    obtain ⟨visit, reached, -⟩ := exists_visit_of_walk bounded inside walk
    exact ⟨visit, reached⟩

/-- All vertices are visited from the first exactly if steps along neighbours lead to them. -/
theorem isConnected_iff (bounded : Bounded adjacency) (nonempty : 0 < adjacency.size) :
    isConnected adjacency = true ↔
    ∀ v < adjacency.size, Relation.ReflTransGen (fun a b => b ∈ adjacency.getD a []) 0 v := by
  have all : (reached adjacency 0).length = (List.range adjacency.size).length ↔
      ∀ v < adjacency.size, Relation.ReflTransGen (fun a b => b ∈ adjacency.getD a []) 0 v := by
    rw [reached, List.length_filter_eq_length_iff]
    simp only [List.mem_range, Option.isSome_iff_exists, exists_visit_iff bounded nonempty]
  rw [isConnected, beq_iff_eq, ← all, List.length_range]

/-! ## Paths -/

/-- A path without repetition along neighbours, with both ends and a number of steps. -/
structure IsPath (adjacency : Adjacency) (source target steps : Nat) (path : List Nat) : Prop where
  head : path.head? = some source
  last : path.getLast? = some target
  chain : path.IsChain fun u v => v ∈ adjacency.getD u []
  nodup : path.Nodup
  length : path.length = steps + 1

/-- Tracing visits back gives a path, and each vertex on it was visited no later than the last. -/
theorem Sound.isPath_trace (sound : Sound adjacency source visits) (reached : visit? visits v = some visit) :
    IsPath adjacency source v visit.hops (trace visits visit.hops v) ∧
      ∀ u ∈ trace visits visit.hops v, ∃ before, visit? visits u = some before ∧ before.hops ≤ visit.hops := by
  refine sound.induction (P := fun v visit => IsPath adjacency source v visit.hops (trace visits visit.hops v) ∧
    ∀ u ∈ trace visits visit.hops v, ∃ before, visit? visits u = some before ∧ before.hops ≤ visit.hops)
    ?root ?step reached
  case root =>
    intro visit reached zero
    rw [zero]
    refine ⟨⟨rfl, rfl, List.isChain_singleton source, List.nodup_singleton source, rfl⟩, ?_⟩
    intro u member
    exact ⟨visit, List.mem_singleton.mp member ▸ reached, zero.le⟩
  case step =>
    rintro v visit before reached - later neighbor ⟨path, early⟩
    have unfolded : trace visits visit.hops v = trace visits before.hops visit.parent ++ [v] := by
      rw [later, trace, reached]
    have fresh : v ∉ trace visits before.hops visit.parent := by
      intro member
      obtain ⟨other, again, few⟩ := early v member
      rw [reached] at again
      cases again
      omega
    rw [unfolded]
    refine ⟨⟨?_, by simp, ?_, ?_, ?_⟩, ?_⟩
    · rw [List.head?_append, path.head]
      rfl
    · refine List.isChain_append.mpr ⟨path.chain, List.isChain_singleton v, ?_⟩
      intro x last y first
      rw [path.last, Option.mem_some_iff] at last
      rw [List.head?_cons, Option.mem_some_iff] at first
      exact last ▸ first ▸ neighbor
    · exact List.nodup_append.mpr ⟨path.nodup, List.nodup_singleton v, by
        rintro x old y new rfl
        exact fresh (List.mem_singleton.mp new ▸ old)⟩
    · rw [List.length_append, path.length, List.length_singleton, later]
    · intro u member
      rcases List.mem_append.mp member with old | new
      · obtain ⟨visitOld, seen, few⟩ := early u old
        exact ⟨visitOld, seen, by omega⟩
      · exact ⟨visit, List.mem_singleton.mp new ▸ reached, le_rfl⟩

theorem visit?_lt_size (reached : visit? visits v = some visit) : v < visits.size := by
  by_contra outside
  rw [visit?, Array.getD_eq_getD_getElem?, Array.getElem?_eq_none (by omega)] at reached
  cases reached

/-- The path to a visited vertex is a shortest path, and its vertices are vertices. -/
theorem exists_path (bounded : Bounded adjacency) (inside : source < adjacency.size)
    (reached : visit? (explore adjacency source) v = some visit) :
    ∃ path, path? (explore adjacency source) v = some path ∧ IsPath adjacency source v visit.hops path ∧
      ∀ u ∈ path, u < adjacency.size := by
  obtain ⟨path, early⟩ := (explore_spec bounded inside).2.1.isPath_trace reached
  refine ⟨_, by rw [path?, reached]; rfl, path, ?_⟩
  intro u member
  obtain ⟨before, seen, -⟩ := early u member
  have size := ((Invariant.start inside).1.run bounded adjacency.size (Invariant.start inside).2).size
  exact size ▸ visit?_lt_size seen

/-- A shortest path has fewer steps than there are vertices. -/
theorem hops_lt_size (bounded : Bounded adjacency) (inside : source < adjacency.size)
    (reached : visit? (explore adjacency source) v = some visit) : visit.hops < adjacency.size := by
  obtain ⟨path, -, isPath, within⟩ := exists_path bounded inside reached
  have subset : path ⊆ List.range adjacency.size := fun u member => List.mem_range.mpr (within u member)
  have count := (isPath.nodup.subperm subset).length_le
  rw [isPath.length, List.length_range] at count
  omega

end Hops

end SteinerTrees
