import SteinerTrees.Proofs.SteinLib.Contents
import Mathlib.Data.List.Basic

/-! # The grammar of SteinLib files

What a file says, line by line, without a reader that carries what it has read. The section of a line is the one that
the last line before it has set. Counts, edges and terminals are malformed if their words are, and all other lines are
left alone. Edges are the pairs of different nodes at their first occurrence, terminals are all that are listed, and the
last count is the one that stands. -/

namespace SteinerTrees.SteinLib

variable {part : Part} {words : List String} {line : String} {before : List String} {statement : Statement}
  {edge : Int × Int} {listed : List (Int × Int)}

/-! ## Lines -/

def keyword? (words : List String) : Option String := words.head?.map Text.upper

def integerAt? (words : List String) (i : Nat) : Option Int := words[i]?.bind Decimal.integer?

/-- The section that a line sets. None of those that are read is set by the end of a section. -/
def opened? (words : List String) : Option Part :=
  if keyword? words = some "SECTION" then some ((words[1]?.map partOfName).getD .other)
  else if keyword? words = some "END" ∨ keyword? words = some "EOF" then some .other
  else none

/-- The section behind some lines. -/
def sectionAfter (before : List String) : Part :=
  ((before.filterMap fun line => opened? (wordsOf line)).getLast?).getD .other

def IsCount (part : Part) (words : List String) : Prop := part = .graph ∧ keyword? words = some "NODES"

def IsArc (part : Part) (words : List String) : Prop := part = .graph ∧ keyword? words = some "A"

/-- An edge or an arc. -/
def IsEdge (part : Part) (words : List String) : Prop :=
  part = .graph ∧ (keyword? words = some "E" ∨ keyword? words = some "A")

def IsTerminal (part : Part) (words : List String) : Prop := part = .terminals ∧ keyword? words = some "T"

instance : Decidable (IsCount part words) := inferInstanceAs (Decidable (_ ∧ _))

instance : Decidable (IsArc part words) := inferInstanceAs (Decidable (_ ∧ _))

instance : Decidable (IsEdge part words) := inferInstanceAs (Decidable (_ ∧ _))

instance : Decidable (IsTerminal part words) := inferInstanceAs (Decidable (_ ∧ _))

/-- A line whose words are not what its keyword asks for. -/
def Malformed (part : Part) (words : List String) : Prop :=
  IsCount part words ∧ integerAt? words 1 = none ∨
  IsEdge part words ∧ (integerAt? words 1 = none ∨ integerAt? words 2 = none ∨
    ∃ word, words[3]? = some word ∧ Decimal.readNumber word = none) ∨
  IsTerminal part words ∧ integerAt? words 1 = none

/-- No line is malformed in its section. -/
def WellFormed (lines : List String) : Prop :=
  ∀ before line after, lines = before ++ line :: after → ¬ Malformed (sectionAfter before) (wordsOf line)

/-- The first malformed line behind the header, which is line one. -/
def IsFirstMalformed (lines : List String) (number : Nat) (line : String) : Prop :=
  ∃ before after, lines = before ++ line :: after ∧ number = before.length + 2 ∧
    Malformed (sectionAfter before) (wordsOf line) ∧ WellFormed before

/-! ## What lines say -/

/-- Each value with those before it. -/
def withEarlier {α : Type} (values : List α) : List (List α × α) := values.mapIdx fun i a => (values.take i, a)

/-- What the words of lines give, each in its section. -/
def given {α : Type} (read : Part → List String → Option α) (lines : List String) : List α :=
  (withEarlier lines).filterMap fun (before, line) => read (sectionAfter before) (wordsOf line)

def count? (part : Part) (words : List String) : Option Int :=
  if IsCount part words then integerAt? words 1 else none

/-- The ends of an edge, counted from zero. -/
def pair? (part : Part) (words : List String) : Option (Int × Int) :=
  if IsEdge part words then do return ((← integerAt? words 1) - 1, (← integerAt? words 2) - 1) else none

def terminal? (part : Part) (words : List String) : Option Int :=
  if IsTerminal part words then (integerAt? words 1).map (· - 1) else none

/-- A weight other than one. -/
def weight? (part : Part) (words : List String) : Option Binary64 :=
  if IsEdge part words then (words[3]?.bind Decimal.readNumber).filter (· != Binary64.ofInt 1) else none

def arc? (part : Part) (words : List String) : Option Unit := if IsArc part words then some () else none

/-- The pairs of different nodes, each where it occurs first. -/
def firstPairs (listed : List (Int × Int)) : List (Int × Int) :=
  ((withEarlier listed).filter fun (earlier, edge) =>
    edge.1 ≠ edge.2 ∧ s(edge.1, edge.2) ∉ pairs earlier).map (·.2)

/-- The content of some lines. -/
def contentsOf (lines : List String) : Contents where
  nodes := (given count? lines).getLast?.getD 0
  edges := firstPairs (given pair? lines)
  terminals := given terminal? lines
  weighted := given weight? lines != []
  directed := given arc? lines != []

/-! ## One more line -/

theorem sectionAfter_append (before : List String) (line : String) :
    sectionAfter (before ++ [line]) = (opened? (wordsOf line)).getD (sectionAfter before) := by
  rw [sectionAfter, List.filterMap_append]
  cases opened : opened? (wordsOf line) with
  | none => simp [opened, sectionAfter]
  | some part => simp [opened]

theorem withEarlier_append {α : Type} (values : List α) (a : α) :
    withEarlier (values ++ [a]) = withEarlier values ++ [(values, a)] := by
  rw [withEarlier, withEarlier, List.mapIdx_concat, List.take_left]
  congr 1
  refine List.ext_getElem? fun i => ?_
  rw [List.getElem?_mapIdx, List.getElem?_mapIdx]
  cases found : values[i]? with
  | none => rfl
  | some value =>
    have inside := (List.getElem?_eq_some_iff.mp found).1
    rw [Option.map_some, Option.map_some, List.take_append_of_le_length inside.le]

theorem given_append {α : Type} (read : Part → List String → Option α) (before : List String) (line : String) :
    given read (before ++ [line]) = given read before ++ (read (sectionAfter before) (wordsOf line)).toList := by
  rw [given, withEarlier_append, List.filterMap_append, ← given]
  cases found : read (sectionAfter before) (wordsOf line) <;> simp [found]

theorem firstPairs_append (listed : List (Int × Int)) (edge : Int × Int) : firstPairs (listed ++ [edge]) =
    firstPairs listed ++ if edge.1 ≠ edge.2 ∧ s(edge.1, edge.2) ∉ pairs listed then [edge] else [] := by
  rw [firstPairs, withEarlier_append, List.filter_append, List.map_append, ← firstPairs]
  split_ifs with fresh <;> simp [fresh]

/-- A pair of different nodes occurs among the first ones if it occurs at all. -/
theorem mem_pairs_firstPairs_iff (differ : edge.1 ≠ edge.2) :
    s(edge.1, edge.2) ∈ pairs (firstPairs listed) ↔ s(edge.1, edge.2) ∈ pairs listed := by
  induction listed using List.reverseRecOn with
  | nil => rfl
  | append_singleton listed last ih =>
    have later : s(edge.1, edge.2) ∈ pairs (listed ++ [last]) ↔
        s(edge.1, edge.2) ∈ pairs listed ∨ s(edge.1, edge.2) = s(last.1, last.2) := by simp [pairs]
    rw [firstPairs_append, later]
    split_ifs with fresh
    · rw [← ih]
      simp [pairs]
    · rw [List.append_nil, ih]
      refine (or_iff_left_of_imp fun same => ?_).symm
      by_contra absent
      refine fresh ⟨fun loop => differ ?_, same ▸ absent⟩
      rcases Sym2.eq_iff.mp same with ⟨first, second⟩ | ⟨first, second⟩
      · rw [first, second, loop]
      · rw [first, second, loop]

/-! ## Statements -/

/-- The five kinds of lines, each with its statement. -/
inductive Kind (part : Part) (words : List String) : Prop
  | header {next : Part} : opened? words = some next → ¬ IsCount part words → ¬ IsEdge part words →
      ¬ IsTerminal part words → statement? part words = some (.enter next) → Kind part words
  | count : opened? words = none → IsCount part words → ¬ IsEdge part words → ¬ IsTerminal part words →
      statement? part words = (integerAt? words 1).map Statement.nodes → Kind part words
  | edge : opened? words = none → ¬ IsCount part words → IsEdge part words → ¬ IsTerminal part words →
      statement? part words = (do
        let source ← integerAt? words 1
        let target ← integerAt? words 2
        let weighted ← isWeight? words[3]?
        return Statement.edge (source - 1) (target - 1) (IsArc part words) weighted) → Kind part words
  | terminal : opened? words = none → ¬ IsCount part words → ¬ IsEdge part words → IsTerminal part words →
      statement? part words = (integerAt? words 1).map (fun node => Statement.terminal (node - 1)) → Kind part words
  | other : opened? words = none → ¬ IsCount part words → ¬ IsEdge part words → ¬ IsTerminal part words →
      statement? part words = some .nothing → Kind part words

theorem kind (part : Part) (words : List String) : Kind part words := by
  cases words with
  | nil =>
    have keyword : keyword? [] = none := rfl
    exact .other rfl (by simp [IsCount, keyword]) (by simp [IsEdge, keyword]) (by simp [IsTerminal, keyword]) rfl
  | cons first rest =>
    have keyword : keyword? (first :: rest) = some (Text.upper first) := rfl
    by_cases opens : Text.upper first = "SECTION"
    · have enters : opened? (first :: rest) = some ((rest.head?.map partOfName).getD .other) := by
        simp [opened?, keyword, opens, List.head?_eq_getElem?]
      refine .header enters ?_ ?_ ?_ ?_
      · simp [IsCount, keyword, opens]
      · simp [IsEdge, keyword, opens]
      · simp [IsTerminal, keyword, opens]
      · simp [statement?, opens]
    by_cases ends : Text.upper first = "END" ∨ Text.upper first = "EOF"
    · have enters : opened? (first :: rest) = some .other := by simp [opened?, keyword, opens, ends]
      refine .header enters ?_ ?_ ?_ ?_
      · rcases ends with same | same <;> simp [IsCount, keyword, same]
      · rcases ends with same | same <;> simp [IsEdge, keyword, same]
      · rcases ends with same | same <;> simp [IsTerminal, keyword, same]
      · simp [statement?, opens, ends]
    have opened : opened? (first :: rest) = none := by simp [opened?, keyword, opens, ends]
    cases part with
    | other => exact .other opened nofun nofun nofun (by simp [statement?, opens, ends])
    | terminals =>
      by_cases named : Text.upper first = "T"
      · refine .terminal opened nofun nofun ⟨rfl, keyword.trans (congrArg some named)⟩ ?_
        simp [statement?, named, node?, integerAt?, List.head?_eq_getElem?, Function.comp_def]
      · refine .other opened nofun nofun (by simp [IsTerminal, keyword, named]) ?_
        simp [statement?, opens, ends, named]
    | graph =>
      by_cases counted : Text.upper first = "NODES"
      · refine .count opened ⟨rfl, keyword.trans (congrArg some counted)⟩ (by simp [IsEdge, keyword, counted]) nofun ?_
        simp [statement?, counted, integerAt?, List.head?_eq_getElem?]
      by_cases joined : Text.upper first = "E" ∨ Text.upper first = "A"
      · refine .edge opened (by simp [IsCount, keyword, counted]) ⟨rfl, by simp [keyword, joined]⟩ nofun ?_
        have arc : IsArc .graph (first :: rest) ↔ Text.upper first = "A" := by simp [IsArc, keyword]
        simp only [statement?, opens, ends, counted, joined, ↓reduceIte, node?, integerAt?, List.getElem?_cons_succ,
          arc]
        cases rest[0]?.bind Decimal.integer? with
        | none => rfl
        | some source => cases rest[1]?.bind Decimal.integer? <;> rfl
      · refine .other opened (by simp [IsCount, keyword, counted]) (by simp [IsEdge, keyword, joined]) nofun ?_
        simp [statement?, opens, ends, counted, joined]

theorem isWeight?_eq_none_iff {word : Option String} : isWeight? word = none ↔
    ∃ text, word = some text ∧ Decimal.readNumber text = none := by
  cases word <;> simp [isWeight?]

theorem isSome_of_isWeight? {word : Option String} {weighted : Bool} (read : isWeight? word = some weighted) :
    ((word.bind Decimal.readNumber).filter (· != Binary64.ofInt 1)).isSome = weighted := by
  cases word with
  | none =>
    cases read
    rfl
  | some text =>
    obtain ⟨weight, number, rfl⟩ := Option.map_eq_some_iff.mp read
    rw [Option.bind_some, number, Option.filter_some]
    cases weight != Binary64.ofInt 1 <;> rfl

/-- A line has a statement unless it is malformed. -/
theorem statement?_eq_none_iff : statement? part words = none ↔ Malformed part words := by
  unfold Malformed
  cases kind part words with
  | header _ count edge terminal read => simp [read, count, edge, terminal]
  | count _ is edge terminal read => simp [read, is, edge, terminal]
  | edge _ count is terminal read =>
    simp only [read, count, is, terminal, ← isWeight?_eq_none_iff, true_and, false_and, or_false, false_or,
      Option.bind_eq_bind, Option.bind_eq_none_iff]
    cases integerAt? words 1 <;> cases integerAt? words 2 <;> cases isWeight? words[3]? <;> simp
  | terminal _ count edge is read => simp [read, count, edge, is]
  | other _ count edge terminal read => simp [read, count, edge, terminal]

theorem after_eq (read : statement? part words = some statement) :
    part.after statement = (opened? words).getD part := by
  cases kind part words with
  | header opened _ _ _ same =>
    cases same.symm.trans read
    rw [opened]
    rfl
  | count opened _ _ _ same =>
    obtain ⟨_, -, rfl⟩ := Option.map_eq_some_iff.mp (same.symm.trans read)
    rw [opened]
    rfl
  | edge opened _ _ _ same =>
    simp only [same, Option.bind_eq_bind, Option.bind_eq_some_iff] at read
    obtain ⟨_, -, _, -, _, -, same⟩ := read
    cases same
    rw [opened]
    rfl
  | terminal opened _ _ _ same =>
    obtain ⟨_, -, rfl⟩ := Option.map_eq_some_iff.mp (same.symm.trans read)
    rw [opened]
    rfl
  | other opened _ _ _ same =>
    cases same.symm.trans read
    rw [opened]
    rfl

/-- What a line adds is read off its words. -/
theorem add_eq (read : statement? part words = some statement) (contents : Contents) :
    contents.add statement = {
      nodes := (count? part words).getD contents.nodes
      edges := contents.edges ++ ((pair? part words).filter fun edge =>
        edge.1 ≠ edge.2 ∧ s(edge.1, edge.2) ∉ pairs contents.edges).toList
      terminals := contents.terminals ++ (terminal? part words).toList
      weighted := contents.weighted || (weight? part words).isSome
      directed := contents.directed || (arc? part words).isSome } := by
  have arcs : IsArc part words → IsEdge part words := fun arc => ⟨arc.1, .inr arc.2⟩
  cases kind part words with
  | header _ count edge terminal same =>
    cases same.symm.trans read
    simp [Contents.add, count?, pair?, terminal?, weight?, arc?, count, edge, terminal, mt arcs edge]
  | count _ is edge terminal same =>
    obtain ⟨count, found, rfl⟩ := Option.map_eq_some_iff.mp (same.symm.trans read)
    simp [Contents.add, count?, pair?, terminal?, weight?, arc?, is, edge, terminal, mt arcs edge, found]
  | edge _ count is terminal same =>
    simp only [same, Option.bind_eq_bind, Option.bind_eq_some_iff] at read
    obtain ⟨source, start, target, stop, weighted, weight, same⟩ := read
    cases same
    have pair : pair? part words = some (source - 1, target - 1) := by simp [pair?, is, start, stop]
    have weighs : (weight? part words).isSome = weighted := by rw [weight?, if_pos is, isSome_of_isWeight? weight]
    have arc : (arc? part words).isSome = decide (IsArc part words) := by
      rw [arc?]
      split_ifs with arc <;> simp [arc]
    have others : count? part words = none ∧ terminal? part words = none := ⟨if_neg count, if_neg terminal⟩
    rw [pair, weighs, arc, others.1, others.2]
    have drops : hasPair contents.edges (source - 1) (target - 1) = true ↔
        s(source - 1, target - 1) ∈ pairs contents.edges := hasPair_iff
    by_cases dropped : source - 1 = target - 1 ∨ s(source - 1, target - 1) ∈ pairs contents.edges
    · have known : ¬ (source - 1 ≠ target - 1 ∧ s(source - 1, target - 1) ∉ pairs contents.edges) := by tauto
      rw [Option.filter_some, if_neg (by simpa using known), Contents.add, if_pos (by rwa [drops])]
      simp
    · have kept := not_or.mp dropped
      rw [Option.filter_some, if_pos (by simpa using kept), Contents.add, if_neg (by rwa [drops])]
      simp
  | terminal _ count edge is same =>
    obtain ⟨node, found, rfl⟩ := Option.map_eq_some_iff.mp (same.symm.trans read)
    simp [Contents.add, count?, pair?, terminal?, weight?, arc?, is, edge, count, mt arcs edge, found]
  | other _ count edge terminal same =>
    cases same.symm.trans read
    simp [Contents.add, count?, pair?, terminal?, weight?, arc?, count, edge, terminal, mt arcs edge]

theorem contentsOf_append (read : statement? (sectionAfter before) (wordsOf line) = some statement) :
    contentsOf (before ++ [line]) = (contentsOf before).add statement := by
  rw [add_eq read, contentsOf]
  simp only [given_append]
  congr 1
  · cases count? (sectionAfter before) (wordsOf line) <;> simp [contentsOf]
  · cases found : pair? (sectionAfter before) (wordsOf line) with
    | none => simp [contentsOf]
    | some edge =>
      have fresh : edge.1 ≠ edge.2 ∧ s(edge.1, edge.2) ∉ pairs (given pair? before) ↔
          edge.1 ≠ edge.2 ∧ s(edge.1, edge.2) ∉ pairs (contentsOf before).edges :=
        and_congr_right fun differ => not_congr (mem_pairs_firstPairs_iff differ).symm
      rw [Option.toList_some, firstPairs_append, Option.filter_some]
      simp only [fresh, decide_eq_true_eq]
      split_ifs <;> rfl
  · cases weight? (sectionAfter before) (wordsOf line) <;> simp [contentsOf]
  · cases arc? (sectionAfter before) (wordsOf line) <;> simp [contentsOf]

end SteinerTrees.SteinLib
