import SteinerTrees.Proofs.Graph.Subgraph

/-! # The path that a search chooses

Of all shortest ways between two vertices a search finds the first one: where another one parts from it, the other one
goes on to a later neighbour. There is only one such way, and every segment of it is the first way between its own ends.
So the choice does not depend on where a search starts. -/

namespace SteinerTrees.Hops

variable {adjacency : Adjacency} {source target u v x y d : Nat} {way other third front middle back : List Nat}
  {visits more : Array (Option Visit)} {visit : Visit} {s : Search} {done seen rest : List Nat}

/-! ## Ways -/

/-- Steps along neighbours from one vertex to another. -/
structure IsWay (adjacency : Adjacency) (source target : Nat) (way : List Nat) : Prop where
  head : way.head? = some source
  last : way.getLast? = some target
  chain : way.IsChain fun u v => v ∈ adjacency.getD u []

/-- Where two ways part, the first goes on to an earlier neighbour. -/
inductive Before (adjacency : Adjacency) : List Nat → List Nat → Prop
  | fork {u v w : Nat} {way other : List Nat} : (adjacency.getD u []).idxOf v < (adjacency.getD u []).idxOf w →
      Before adjacency (u :: v :: way) (u :: w :: other)
  | step {u : Nat} {way other : List Nat} : Before adjacency way other → Before adjacency (u :: way) (u :: other)

namespace Before

theorem irrefl : ¬ Before adjacency way way := by
  induction way with
  | nil => exact fun before => nomatch before
  | cons u rest ih =>
    intro before
    cases before with
    | fork earlier => exact lt_irrefl _ earlier
    | step before => exact ih before

theorem trans (first : Before adjacency way other) (second : Before adjacency other third) :
    Before adjacency way third := by
  induction first generalizing third with
  | fork earlier =>
    cases second with
    | fork later => exact .fork (earlier.trans later)
    | step second => cases second <;> exact .fork earlier
  | step first ih =>
    cases second with
    | fork later => cases first <;> exact .fork later
    | step second => exact .step (ih second)

theorem append_left (before : Before adjacency way other) (front : List Nat) :
    Before adjacency (front ++ way) (front ++ other) := by
  induction front with
  | nil => exact before
  | cons u rest ih => exact .step ih

theorem append_right (before : Before adjacency way other) (back beyond : List Nat) :
    Before adjacency (way ++ back) (other ++ beyond) := by
  induction before with
  | fork earlier => exact .fork earlier
  | step _ ih => exact .step ih

/-- Ways of one length from one vertex are the same, or one of them is the first. -/
theorem total (here : way.IsChain fun u v => v ∈ adjacency.getD u [])
    (there : other.IsChain fun u v => v ∈ adjacency.getD u []) (heads : way.head? = other.head?)
    (lengths : way.length = other.length) : way = other ∨ Before adjacency way other ∨ Before adjacency other way := by
  induction way generalizing other with
  | nil => exact .inl (List.length_eq_zero_iff.mp lengths.symm).symm
  | cons u rest ih =>
    obtain ⟨w, others, rfl⟩ := List.exists_cons_of_length_eq_add_one lengths.symm
    cases heads
    rcases rest with _ | ⟨v, rest⟩
    · exact .inl (by rw [List.length_eq_zero_iff.mp (Nat.succ.inj lengths).symm])
    obtain ⟨w, others, rfl⟩ := List.exists_cons_of_length_eq_add_one (Nat.succ.inj lengths).symm
    obtain ⟨neighbor, here⟩ := List.isChain_cons_cons.mp here
    obtain ⟨another, there⟩ := List.isChain_cons_cons.mp there
    by_cases same : v = w
    · subst same
      rcases ih here there rfl (Nat.succ.inj lengths) with equal | before | after
      · exact .inl (by rw [equal])
      · exact .inr (.inl (.step before))
      · exact .inr (.inr (.step after))
    · rcases Nat.lt_or_gt_of_ne fun equal => same ((List.idxOf_inj neighbor).mp equal) with earlier | later
      · exact .inr (.inl (.fork earlier))
      · exact .inr (.inr (.fork later))

end Before

/-- The first of the shortest ways between two vertices. -/
structure IsFirst (adjacency : Adjacency) (source target : Nat) (way : List Nat) : Prop
    extends IsWay adjacency source target way where
  shortest : ∀ other, IsWay adjacency source target other → way.length ≤ other.length
  first : ∀ other, IsWay adjacency source target other → other.length = way.length →
    way = other ∨ Before adjacency way other

theorem IsFirst.unique (first : IsFirst adjacency source target way) (second : IsFirst adjacency source target other) :
    way = other := by
  have lengths : other.length = way.length :=
    le_antisymm (second.shortest way first.toIsWay) (first.shortest other second.toIsWay)
  rcases first.first other second.toIsWay lengths with same | before
  · exact same
  · rcases second.first way first.toIsWay lengths.symm with same | after
    · exact same.symm
    · exact absurd (before.trans after) Before.irrefl

/-! ## Segments -/

/-- A segment of a way can be replaced by any other way between its ends. -/
theorem IsWay.splice (whole : IsWay adjacency source target (front ++ middle ++ back))
    (old : IsWay adjacency x y middle) (new : IsWay adjacency x y other) :
    IsWay adjacency source target (front ++ other ++ back) := by
  obtain ⟨chain, after, last⟩ := List.isChain_append.mp whole.chain
  obtain ⟨before, -, first⟩ := List.isChain_append.mp chain
  have heads : (front ++ other).head? = (front ++ middle).head? := by
    rw [List.head?_append, List.head?_append, old.head, new.head]
  have lasts : (front ++ other).getLast? = (front ++ middle).getLast? := by
    rw [List.getLast?_append, List.getLast?_append, old.last, new.last]
  refine ⟨?_, ?_, List.isChain_append.mpr ⟨List.isChain_append.mpr ⟨before, new.chain, ?_⟩, after, ?_⟩⟩
  · rw [List.head?_append, heads, ← List.head?_append, whole.head]
  · rw [List.getLast?_append, lasts, ← List.getLast?_append, whole.last]
  · rwa [new.head, ← old.head]
  · rwa [lasts]

/-- A segment of a first way is the first way between its ends. -/
theorem IsFirst.segment (whole : IsFirst adjacency source target (front ++ middle ++ back))
    (head : middle.head? = some x) (last : middle.getLast? = some y) : IsFirst adjacency x y middle := by
  have chain := (List.isChain_append.mp (List.isChain_append.mp whole.chain).1).2.1
  have old : IsWay adjacency x y middle := ⟨head, last, chain⟩
  refine ⟨old, fun other new => ?_, fun other new lengths => ?_⟩
  · have shorter := whole.shortest _ (whole.splice old new)
    simp only [List.length_append] at shorter
    omega
  · rcases Before.total chain new.chain (head.trans new.head.symm) lengths.symm with same | before | after
    · exact .inl same
    · exact .inr before
    · -- A way before the segment would give a way before the whole.
      have spliced := whole.first _ (whole.splice old new) (by simp only [List.length_append, lengths])
      have sooner := (after.append_left front).append_right back back
      rcases spliced with same | later
      · exact absurd (same ▸ sooner) Before.irrefl
      · exact absurd (later.trans sooner) Before.irrefl

/-! ## The order of a search -/

/-- Of two vertices that are equally far, the first has the first way. -/
def Sooner (adjacency : Adjacency) (visits : Array (Option Visit)) (u v : Nat) : Prop :=
  ∀ first second, visit? visits u = some first → visit? visits v = some second → first.hops = second.hops →
    Before adjacency (trace visits first.hops u) (trace visits second.hops v)

/-- More visits leave the way to a visited vertex as it was. -/
theorem Sound.trace_eq (sound : Sound adjacency source visits)
    (kept : ∀ v visit, visit? visits v = some visit → visit? more v = some visit)
    (reached : visit? visits v = some visit) : trace more visit.hops v = trace visits visit.hops v := by
  refine sound.induction (P := fun v visit => trace more visit.hops v = trace visits visit.hops v) ?root ?step reached
  case root =>
    intro visit _ zero
    rw [zero, trace, trace]
  case step =>
    intro v visit before reached _ later _ same
    rw [later, trace, trace, reached, kept v visit reached]
    exact congrArg (· ++ [v]) same

/-- The way to a vertex other than the source ends with the step from the vertex before it. -/
theorem Sound.trace_eq_append (sound : Sound adjacency source visits) (reached : visit? visits v = some visit)
    (away : 0 < visit.hops) : ∃ before, visit? visits visit.parent = some before ∧ visit.hops = before.hops + 1 ∧
      v ∈ adjacency.getD visit.parent [] ∧
      trace visits visit.hops v = trace visits before.hops visit.parent ++ [v] := by
  rcases sound v visit reached with ⟨zero, -⟩ | ⟨before, known, later, neighbor⟩
  · omega
  · refine ⟨before, known, later, neighbor, ?_⟩
    rw [later, trace, reached]

/-- The visited vertices in the order of their visits: those that are done, and then the queue. A vertex is visited
from the first of the vertices that are one step nearer. -/
structure Ordered (adjacency : Adjacency) (done : List Nat) (s : Search) : Prop where
  listed : ∀ v, v ∈ done ++ s.queue ↔ ∃ visit, visit? s.visits v = some visit
  sooner : (done ++ s.queue).Pairwise (Sooner adjacency s.visits)
  parents : ∀ v visit, visit? s.visits v = some visit → 0 < visit.hops → visit.parent ∈ done
  first : ∀ v visit u near, visit? s.visits v = some visit → visit? s.visits u = some near →
    v ∈ adjacency.getD u [] → visit.hops = near.hops + 1 → visit.parent = u ∨ Sooner adjacency s.visits visit.parent u

theorem Sooner.extend (sooner : Sooner adjacency visits u v) (sound : Sound adjacency source visits)
    (kept : ∀ v visit, visit? visits v = some visit → visit? more v = some visit) {first second : Visit}
    (here : visit? visits u = some first) (there : visit? visits v = some second) : Sooner adjacency more u v := by
  intro early late reached next count
  rw [kept u first here] at reached
  rw [kept v second there] at next
  cases reached
  cases next
  rw [sound.trace_eq kept here, sound.trace_eq kept there]
  exact sooner first second here there count

/-- Of two neighbours of one vertex, the earlier one has the first way. -/
theorem before_of_seen (neighbors : adjacency.getD u [] = seen ++ v :: rest) (member : x ∈ seen) (fresh : v ∉ seen)
    (last : way.getLast? = some u) : Before adjacency (way ++ [x]) (way ++ [v]) := by
  obtain ⟨front, rfl⟩ := List.getLast?_eq_some_iff.mp last
  have earlier : (adjacency.getD u []).idxOf x < (adjacency.getD u []).idxOf v := by
    rw [neighbors, List.idxOf_append_of_mem member, List.idxOf_append_of_notMem fresh]
    exact Nat.lt_add_right _ (List.idxOf_lt_length_of_mem member)
  rw [List.append_assoc, List.append_assoc]
  exact (Before.fork earlier).append_left front

/-- What holds while the neighbours of `u` are looked at: those that are `seen` are visited, the `rest` wait. -/
structure Expansion (adjacency : Adjacency) (source : Nat) (done : List Nat) (u d : Nat) (seen rest : List Nat)
    (s : Search) : Prop where
  invariant : Invariant adjacency source (fun x y => x = u ∧ y ∈ rest) s
  expanding : Expanding u d s
  ordered : Ordered adjacency (done ++ [u]) s
  neighbors : adjacency.getD u [] = seen ++ rest
  looked : ∀ v ∈ seen, ∃ visit, visit? s.visits v = some visit
  children : ∀ v visit, visit? s.visits v = some visit → 0 < visit.hops → visit.parent = u → v ∈ seen

namespace Expansion

/-- A vertex that was visited before has the sooner way. -/
theorem sooner_fresh (expansion : Expansion adjacency source done u d seen (v :: rest) s) (inside : v < s.visits.size)
    (fresh : visit? s.visits v = none) (reached : visit? s.visits x = some visit) :
    Sooner adjacency (discover u d s v).visits x v := by
  obtain ⟨own, at_u, hops⟩ := expansion.expanding.current
  have sound := expansion.invariant.sound
  have kept : ∀ w visit, visit? s.visits w = some visit → visit? (discover u d s v).visits w = some visit :=
    fun _ _ => visit?_discover_of_visited inside fresh
  have added : visit? (discover u d s v).visits v = some ⟨d + 1, u⟩ := visit?_discover_self inside fresh
  intro first second here there count
  rw [kept x visit reached] at here
  rw [added] at there
  cases here
  cases there
  have far : visit.hops = d + 1 := count
  obtain ⟨before, known, later, -, traced⟩ := sound.trace_eq_append reached (by omega)
  have last : trace (discover u d s v).visits (d + 1) v = trace s.visits own.hops u ++ [v] := by
    have same := sound.trace_eq kept at_u
    rw [hops] at same
    simp only [trace, added]
    rw [same, hops]
  rw [sound.trace_eq kept reached, last, traced]
  by_cases same : visit.parent = u
  · have member := expansion.children x visit reached (by omega) same
    have unseen : v ∉ seen := fun looked => by
      obtain ⟨old, visited⟩ := expansion.looked v looked
      rw [fresh] at visited
      cases visited
    rw [same] at known ⊢
    rw [at_u] at known
    cases known
    exact before_of_seen expansion.neighbors member unseen (sound.isPath_trace at_u).1.last
  · have member := expansion.ordered.parents x visit reached (by omega)
    have earlier := (List.mem_append.mp member).resolve_right fun here => same (List.mem_singleton.mp here)
    have sooner := (List.pairwise_append.mp (List.pairwise_append.mp expansion.ordered.sooner).1).2.2 _ earlier u
      List.mem_cons_self before own known at_u (by omega)
    exact sooner.append_right [x] [v]

/-- A first visit comes from the first of the vertices that are one step nearer. -/
theorem first_fresh (bounded : Bounded adjacency)
    (expansion : Expansion adjacency source done u d seen (v :: rest) s) (fresh : visit? s.visits v = none)
    (reached : visit? s.visits x = some visit) (neighbor : v ∈ adjacency.getD x []) :
    u = x ∨ Sooner adjacency s.visits u x := by
  by_cases same : u = x
  · exact .inl same
  · by_cases queued : x ∈ s.queue
    · have late := (List.pairwise_append.mp expansion.ordered.sooner).2.2
      exact .inr (late u (List.mem_append_right _ List.mem_cons_self) x queued)
    · obtain ⟨next, visited, -⟩ := expansion.invariant.done x visit reached queued v neighbor
        (bounded x v neighbor) fun waits => same waits.1.symm
      rw [fresh] at visited
      cases visited

/-- A first visit is the last in order. -/
theorem ordered_fresh (bounded : Bounded adjacency)
    (expansion : Expansion adjacency source done u d seen (v :: rest) s) (inside : v < s.visits.size)
    (fresh : visit? s.visits v = none) : Ordered adjacency (done ++ [u]) (discover u d s v) := by
  have sound := expansion.invariant.sound
  have ordered := expansion.ordered
  have kept : ∀ w visit, visit? s.visits w = some visit → visit? (discover u d s v).visits w = some visit :=
    fun _ _ => visit?_discover_of_visited inside fresh
  have queue : (discover u d s v).queue = s.queue ++ [v] := queue_discover inside fresh
  constructor
  case listed =>
    intro w
    rw [queue, ← List.append_assoc, List.mem_append, ordered.listed, List.mem_singleton]
    simp only [visit?_discover_iff inside fresh]
    constructor
    · rintro (⟨visit, reached⟩ | rfl)
      · exact ⟨visit, .inr reached⟩
      · exact ⟨_, .inl ⟨rfl, rfl⟩⟩
    · rintro ⟨visit, ⟨rfl, -⟩ | reached⟩
      · exact .inr rfl
      · exact .inl ⟨visit, reached⟩
  case sooner =>
    rw [queue, ← List.append_assoc]
    refine List.pairwise_append.mpr ⟨?_, List.pairwise_singleton _ _, ?_⟩
    · refine ordered.sooner.imp_of_mem fun {x y} first second sooner => ?_
      obtain ⟨early, here⟩ := (ordered.listed x).mp first
      obtain ⟨late, there⟩ := (ordered.listed y).mp second
      exact sooner.extend sound kept here there
    · intro x member y last
      rw [List.mem_singleton.mp last]
      obtain ⟨visit, reached⟩ := (ordered.listed x).mp member
      exact expansion.sooner_fresh inside fresh reached
  case parents =>
    intro w visit reached away
    rcases (visit?_discover_iff inside fresh).mp reached with ⟨-, rfl⟩ | old
    · exact List.mem_append_right _ List.mem_cons_self
    · exact ordered.parents w visit old away
  case first =>
    intro w visit x near reached next neighbor count
    obtain ⟨own, at_u, hops⟩ := expansion.expanding.current
    rcases (visit?_discover_iff inside fresh).mp next with ⟨rfl, rfl⟩ | known
    · -- Nothing is more than one step beyond `u`, so the new vertex is not one step nearer than another.
      rcases (visit?_discover_iff inside fresh).mp reached with ⟨-, rfl⟩ | old
      · exact absurd count (by simp)
      · exact absurd (expansion.expanding.high w visit old) (by simp only at count; omega)
    · rcases (visit?_discover_iff inside fresh).mp reached with ⟨rfl, rfl⟩ | old
      · exact (expansion.first_fresh bounded fresh known neighbor).imp_right fun sooner =>
          sooner.extend sound kept at_u known
      · refine (ordered.first w visit x near old known neighbor count).imp_right fun sooner => ?_
        obtain ⟨before, parent, -⟩ := sound.trace_eq_append old (by omega)
        exact sooner.extend sound kept parent known

/-- Looking at one neighbour. -/
theorem discover (bounded : Bounded adjacency)
    (expansion : Expansion adjacency source done u d seen (v :: rest) s) :
    Expansion adjacency source done u d (seen ++ [v]) rest (discover u d s v) := by
  have neighbors : adjacency.getD u [] = seen ++ [v] ++ rest := by
    rw [expansion.neighbors, List.append_assoc, List.singleton_append]
  have neighbor : v ∈ adjacency.getD u [] := expansion.neighbors ▸ List.mem_append_right _ List.mem_cons_self
  cases visited : visit? s.visits v with
  | some old =>
    rw [discover_of_visited visited]
    refine ⟨expansion.invariant.discover_visited expansion.expanding visited, expansion.expanding, expansion.ordered,
      neighbors, ?_, ?_⟩
    · intro x member
      rcases List.mem_append.mp member with looked | now
      · exact expansion.looked x looked
      · exact ⟨old, List.mem_singleton.mp now ▸ visited⟩
    · exact fun x visit reached away child => List.mem_append_left _ (expansion.children x visit reached away child)
  | none =>
    have inside : v < s.visits.size := expansion.invariant.size ▸ bounded u v neighbor
    refine ⟨expansion.invariant.discover_fresh expansion.expanding neighbor inside visited,
      expansion.expanding.discover_fresh inside visited, expansion.ordered_fresh bounded inside visited, neighbors,
      ?_, ?_⟩
    · intro x member
      rcases List.mem_append.mp member with looked | now
      · obtain ⟨visit, reached⟩ := expansion.looked x looked
        exact ⟨visit, visit?_discover_of_visited inside visited reached⟩
      · exact ⟨_, by rw [List.mem_singleton.mp now, visit?_discover_self inside visited]⟩
    · intro x visit reached away child
      rcases (visit?_discover_iff inside visited).mp reached with ⟨rfl, -⟩ | old
      · exact List.mem_append_right _ List.mem_cons_self
      · exact List.mem_append_left _ (expansion.children x visit old away child)

theorem foldl_discover (bounded : Bounded adjacency) :
    ∀ {seen : List Nat} {s : Search}, Expansion adjacency source done u d seen rest s →
      Ordered adjacency (done ++ [u]) (rest.foldl (Hops.discover u d) s) := by
  induction rest with
  | nil => exact fun expansion => expansion.ordered
  | cons v rest ih => exact fun expansion => ih (expansion.discover bounded)

end Expansion

namespace Ordered

theorem start (inside : source < adjacency.size) : Ordered adjacency [] (start adjacency.size source) := by
  refine ⟨fun v => ?_, List.pairwise_singleton _ _, fun v visit reached away => ?_,
    fun v visit u near reached _ _ count => ?_⟩
  · rw [List.nil_append]
    constructor
    · exact fun member => ⟨_, (visit?_start_iff inside).mpr ⟨List.mem_singleton.mp member, rfl⟩⟩
    · exact fun ⟨_, reached⟩ => List.mem_singleton.mpr ((visit?_start_iff inside).mp reached).1
  · rw [((visit?_start_iff inside).mp reached).2] at away
    exact absurd away (lt_irrefl 0)
  · rw [((visit?_start_iff inside).mp reached).2] at count
    exact absurd count (Nat.succ_ne_zero _).symm

/-- When the first vertex leaves the queue, it is the last one that is done, and it has no children yet. -/
theorem pop {queue : List Nat} (invariant : Invariant adjacency source (fun _ _ => False) ⟨visits, u :: queue⟩)
    (close : Close ⟨visits, u :: queue⟩) (ordered : Ordered adjacency done ⟨visits, u :: queue⟩) :
    ∃ own, visit? visits u = some own ∧
      Expansion adjacency source done u own.hops [] (adjacency.getD u []) ⟨visits, queue⟩ := by
  obtain ⟨own, at_u, popped, expanding⟩ := invariant.pop close
  have list : done ++ [u] ++ queue = done ++ u :: queue := List.append_cons done u queue ▸ rfl
  refine ⟨own, at_u, popped, expanding, ⟨?_, ?_, ?_, ordered.first⟩, rfl, ?_, ?_⟩
  · exact list ▸ ordered.listed
  · exact list ▸ ordered.sooner
  · exact fun v visit reached away => List.mem_append_left _ (ordered.parents v visit reached away)
  · exact fun v member => absurd member List.not_mem_nil
  · -- A vertex that is both done and queued would come before itself.
    intro v visit reached away child
    have before := (List.pairwise_append.mp ordered.sooner).2.2 u (child ▸ ordered.parents v visit reached away) u
      List.mem_cons_self own own at_u at_u rfl
    exact absurd before Before.irrefl

/-- One step of a search keeps the order. -/
theorem step (bounded : Bounded adjacency) (invariant : Invariant adjacency source (fun _ _ => False) s)
    (close : Close s) (ordered : Ordered adjacency done s) : ∃ more, Ordered adjacency more (step adjacency s) := by
  rcases s with ⟨visits, _ | ⟨u, queue⟩⟩
  · exact ⟨done, ordered⟩
  · obtain ⟨own, at_u, expansion⟩ := ordered.pop invariant close
    rw [step_cons at_u]
    exact ⟨done ++ [u], expansion.foldl_discover bounded⟩

theorem run (bounded : Bounded adjacency) (fuel : Nat) :
    ∀ {done : List Nat} {s : Search}, Invariant adjacency source (fun _ _ => False) s → Close s →
      Ordered adjacency done s → ∃ more, Ordered adjacency more (run adjacency fuel s) := by
  induction fuel with
  | zero => exact fun _ _ ordered => ⟨_, ordered⟩
  | succ fuel ih =>
    intro done s invariant close ordered
    obtain ⟨more, next⟩ := ordered.step bounded invariant close
    obtain ⟨kept, near⟩ := invariant.step bounded close
    exact ih kept near next

end Ordered

/-! ## Searches find first ways -/

/-- A way ends with the step to its target, unless it is only its source. -/
theorem IsWay.ending (isWay : IsWay adjacency source target way) : (target = source ∧ way = [source]) ∨
    ∃ front u, way = front ++ [target] ∧ IsWay adjacency source u front ∧ target ∈ adjacency.getD u [] := by
  obtain ⟨front, rfl⟩ := List.getLast?_eq_some_iff.mp isWay.last
  obtain ⟨chain, -, link⟩ := List.isChain_append.mp isWay.chain
  have head := isWay.head
  cases last : front.getLast? with
  | none =>
    obtain rfl := List.getLast?_eq_none_iff.mp last
    obtain rfl : target = source := Option.some.inj head
    exact .inl ⟨rfl, rfl⟩
  | some u =>
    refine .inr ⟨front, u, rfl, ⟨?_, last, chain⟩, link u last target rfl⟩
    rwa [List.head?_append_of_ne_nil _ (fun empty => by rw [empty] at last; cases last)] at head

theorem IsWay.walk {length : Nat} (isWay : IsWay adjacency source target way) (count : way.length = length + 1) :
    Walk adjacency source length target := by
  induction length generalizing way target with
  | zero =>
    rcases isWay.ending with ⟨rfl, -⟩ | ⟨front, u, rfl, before, -⟩
    · exact .start
    · rw [List.length_append, List.length_singleton, Nat.add_right_cancel_iff, List.length_eq_zero_iff] at count
      exact absurd (count ▸ before.head) nofun
  | succ length ih =>
    rcases isWay.ending with ⟨-, rfl⟩ | ⟨front, u, rfl, before, neighbor⟩
    · exact absurd count (by simp)
    · exact (ih before (by simpa using count)).step neighbor

theorem IsWay.exists_length (isWay : IsWay adjacency source target way) : ∃ length, way.length = length + 1 := by
  obtain ⟨front, rfl⟩ := List.getLast?_eq_some_iff.mp isWay.last
  exact ⟨front.length, List.length_append⟩

/-- A search takes no more hops than any way. -/
theorem IsWay.hops_lt_length (isWay : IsWay adjacency source v way) (bounded : Bounded adjacency)
    (inside : source < adjacency.size) (reached : visit? (explore adjacency source) v = some visit) :
    visit.hops < way.length := by
  obtain ⟨length, count⟩ := isWay.exists_length
  obtain ⟨again, seen, few⟩ := exists_visit_of_walk bounded inside (isWay.walk count)
  cases reached.symm.trans seen
  omega

/-- No way as long as the one that a search finds comes before it. -/
theorem trace_eq_or_before (bounded : Bounded adjacency) (inside : source < adjacency.size) (hops : Nat) :
    ∀ {v : Nat} {visit : Visit} {way : List Nat}, visit? (explore adjacency source) v = some visit →
      visit.hops = hops → IsWay adjacency source v way → way.length = hops + 1 →
      trace (explore adjacency source) hops v = way ∨
        Before adjacency (trace (explore adjacency source) hops v) way := by
  obtain ⟨-, sound, closed⟩ := explore_spec bounded inside
  obtain ⟨invariant, close⟩ := Invariant.start inside
  obtain ⟨done, ordered⟩ := (Ordered.start inside).run bounded adjacency.size invariant close
  induction hops with
  | zero =>
    intro v visit way reached count isWay lengths
    obtain ⟨w, rfl⟩ := List.length_eq_one_iff.mp lengths
    obtain rfl : w = v := Option.some.inj isWay.last
    exact .inl rfl
  | succ hops ih =>
    intro v visit way reached count isWay lengths
    obtain ⟨before, known, later, neighbor, traced⟩ := sound.trace_eq_append reached (by omega)
    obtain rfl : before.hops = hops := by omega
    rw [count] at traced
    rw [traced]
    rcases isWay.ending with ⟨-, rfl⟩ | ⟨front, u, rfl, toward, last⟩
    · exact absurd lengths (by simp)
    have length : front.length = before.hops + 1 := by simpa using lengths
    obtain ⟨near, at_u, few⟩ := exists_visit_of_walk bounded inside (toward.walk length)
    obtain ⟨again, seen, most⟩ := closed u near at_u v last
    cases reached.symm.trans seen
    have equal : near.hops = before.hops := by omega
    have best := ih at_u equal toward length
    -- The way to `u` that was found comes no later than `front`, and the parent comes no later than `u`.
    rcases ordered.first v visit u near reached at_u last (by omega) with rfl | sooner
    · exact best.imp (congrArg (· ++ [v])) fun earlier => earlier.append_right [v] [v]
    · have apart := sooner before near known at_u equal.symm
      rw [equal] at apart
      rcases best with same | earlier
      · exact .inr ((same ▸ apart).append_right [v] [v])
      · exact .inr ((apart.trans earlier).append_right [v] [v])

/-- The way that a search finds is the first. -/
theorem isFirst_trace (bounded : Bounded adjacency) (inside : source < adjacency.size)
    (reached : visit? (explore adjacency source) v = some visit) :
    IsFirst adjacency source v (trace (explore adjacency source) visit.hops v) := by
  obtain ⟨-, sound, -⟩ := explore_spec bounded inside
  obtain ⟨path, -⟩ := sound.isPath_trace reached
  refine ⟨⟨path.head, path.last, path.chain⟩, fun other isWay => ?_, fun other isWay lengths => ?_⟩
  · rw [path.length]
    exact isWay.hops_lt_length bounded inside reached
  · exact trace_eq_or_before bounded inside visit.hops reached rfl isWay (lengths.trans path.length)

/-- A search finds the first way, and it finds one if there is any way. -/
theorem path?_eq_some_iff (bounded : Bounded adjacency) (inside : source < adjacency.size) :
    path? (explore adjacency source) target = some way ↔ IsFirst adjacency source target way := by
  have found : ∀ {visit : Visit}, visit? (explore adjacency source) target = some visit →
      ∃ first, path? (explore adjacency source) target = some first ∧ IsFirst adjacency source target first :=
    fun reached => ⟨_, by rw [path?, reached]; rfl, isFirst_trace bounded inside reached⟩
  constructor
  · intro known
    obtain ⟨visit, reached, -⟩ := Option.map_eq_some_iff.mp known
    obtain ⟨first, equal, isFirst⟩ := found reached
    exact Option.some.inj (known.symm.trans equal) ▸ isFirst
  · intro isFirst
    obtain ⟨length, count⟩ := isFirst.exists_length
    obtain ⟨visit, reached, -⟩ := exists_visit_of_walk bounded inside (isFirst.walk count)
    obtain ⟨first, equal, other⟩ := found reached
    rw [equal, other.unique isFirst]

/-! ## The steps of a way -/

/-- The pairs of consecutive vertices. -/
def pairsAlong (way : List Nat) : List (Sym2 Nat) := way.zipWith (fun u v => s(u, v)) way.tail

theorem mem_pairsAlong_iff {edge : Sym2 Nat} :
    edge ∈ pairsAlong way ↔ ∃ front u v back, way = front ++ u :: v :: back ∧ edge = s(u, v) := by
  induction way with
  | nil => simp [pairsAlong]
  | cons u rest ih =>
    cases rest with
    | nil =>
      refine ⟨fun member => (nomatch member), fun ⟨front, x, y, back, same, _⟩ => ?_⟩
      have lengths := congrArg List.length same
      simp only [List.length_append, List.length_cons, List.length_nil] at lengths
      omega
    | cons v rest =>
      have step : pairsAlong (u :: v :: rest) = s(u, v) :: pairsAlong (v :: rest) := rfl
      rw [step, List.mem_cons, ih]
      constructor
      · rintro (rfl | ⟨front, x, y, back, same, rfl⟩)
        · exact ⟨[], u, v, rest, rfl, rfl⟩
        · exact ⟨u :: front, x, y, back, by rw [same, List.cons_append], rfl⟩
      · rintro ⟨front, x, y, back, same, rfl⟩
        cases front with
        | nil =>
          cases same
          exact .inl rfl
        | cons first front => exact .inr ⟨front, x, y, back, (List.cons.inj same).2, rfl⟩

theorem IsFirst.suffix (first : IsFirst adjacency source target (front ++ u :: back)) :
    IsFirst adjacency u target (u :: back) := by
  have last := first.last
  rw [List.getLast?_append_of_ne_nil _ (List.cons_ne_nil u back)] at last
  rw [← List.append_nil (front ++ u :: back)] at first
  exact first.segment rfl last

theorem IsFirst.eq_singleton (first : IsFirst adjacency target target way) : way = [target] := by
  have point : IsWay adjacency target target [target] := ⟨rfl, rfl, List.isChain_singleton target⟩
  obtain ⟨length, count⟩ := first.exists_length
  have short := first.shortest [target] point
  rw [List.length_singleton] at short
  obtain ⟨v, rfl⟩ := List.length_eq_one_iff.mp (show way.length = 1 by omega)
  exact congrArg ([·]) (Option.some.inj first.head)

end SteinerTrees.Hops

namespace SteinerTrees.Graph

open Hops

variable {g : Graph} {source target : Nat} {way : List Nat}

theorem path_eq_ok_iff : g.path source target = .ok way ↔ path? (explore g.adjacency source) target = some way := by
  rw [path]
  cases path? (explore g.adjacency source) target with
  | none => exact ⟨fun failed => (nomatch failed), fun failed => (nomatch failed)⟩
  | some path => simp only [Except.ok.injEq, Option.some.injEq]

/-- The path between two vertices is the first of the shortest ways between them. -/
theorem WellFormed.isFirst_iff (valid : g.WellFormed) (inside : source < g.size) :
    IsFirst g.adjacency source target way ↔ g.path source target = .ok way := by
  rw [path_eq_ok_iff, path?_eq_some_iff valid.bounded (g.adjacency_size ▸ inside)]

theorem WellFormed.exists_path (valid : g.WellFormed) (inside : source < g.size)
    (joined : Joined g.edgeSet source target) : ∃ path, g.path source target = .ok path := by
  obtain ⟨visit, reached⟩ := (valid.exists_visit_iff inside).mpr joined
  exact ⟨_, path_eq_ok_iff.mpr (by rw [path?, reached]; rfl)⟩

/-- The vertices of a path are vertices. -/
theorem WellFormed.lt_size_of_mem_path (valid : g.WellFormed) (inside : source < g.size)
    (found : g.path source target = .ok way) : ∀ v ∈ way, v < g.size := by
  have traced := path_eq_ok_iff.mp found
  obtain ⟨visit, reached, -⟩ := Option.map_eq_some_iff.mp traced
  obtain ⟨path, same, -, within⟩ := Hops.exists_path valid.bounded (g.adjacency_size ▸ inside) reached
  cases traced.symm.trans same
  exact fun v member => g.adjacency_size ▸ within v member

end SteinerTrees.Graph
