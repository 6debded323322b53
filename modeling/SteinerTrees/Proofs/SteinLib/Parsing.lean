import SteinerTrees.Proofs.SteinLib.Grammar

/-! # Parsing SteinLib files

The reader carries its content and its section from line to line. After any lines both are what the grammar says of
these lines, so that the reader stops at the first line that the grammar calls malformed, and else returns what all
lines give. -/

namespace SteinerTrees.SteinLib

variable {line : String} {before after lines : List String} {number : Nat} {text : String} {name : Value}

/-! ## The first malformed line -/

theorem wellFormed_append : WellFormed (before ++ [line]) ↔
    WellFormed before ∧ ¬ Malformed (sectionAfter before) (wordsOf line) := by
  constructor
  · intro well
    refine ⟨fun first here after same => well first here (after ++ [line]) ?_, well before line [] rfl⟩
    rw [same, List.append_assoc, List.cons_append]
  · rintro ⟨well, last⟩ first here after same
    rcases List.eq_nil_or_concat after with rfl | ⟨between, other, rfl⟩
    · obtain ⟨rfl, equal⟩ := List.append_inj' same rfl
      cases equal
      exact last
    · rw [List.concat_eq_append, ← List.cons_append, ← List.append_assoc] at same
      exact well first here between (List.append_inj' same rfl).1

/-- Lines are well-formed as far as their first malformed line. -/
theorem IsFirstMalformed.not_wellFormed (first : IsFirstMalformed lines number line) : ¬ WellFormed lines := by
  obtain ⟨before, after, same, -, malformed, -⟩ := first
  exact fun well => well before line after same malformed

/-- Well-formed lines end before the first malformed line. -/
theorem WellFormed.length_le {others more : List String} (well : WellFormed others)
    (malformed : Malformed (sectionAfter before) (wordsOf line)) (same : before ++ line :: after = others ++ more) :
    others.length ≤ before.length := by
  by_contra longer
  have shorter : (before ++ [line]).length ≤ others.length := by
    rw [List.length_append, List.length_singleton]
    omega
  obtain ⟨between, rfl⟩ := List.prefix_of_prefix_length_le ⟨after, by rw [List.append_assoc, List.singleton_append]⟩
    ⟨more, same.symm⟩ shorter
  exact well before line between (by rw [List.append_assoc, List.singleton_append]) malformed

theorem IsFirstMalformed.unique {number' : Nat} {line' : String} (first : IsFirstMalformed lines number line)
    (other : IsFirstMalformed lines number' line') : number = number' ∧ line = line' := by
  obtain ⟨before, after, rfl, rfl, malformed, well⟩ := first
  obtain ⟨before', after', same, rfl, malformed', well'⟩ := other
  have length := le_antisymm (well.length_le malformed' same.symm) (well'.length_le malformed same)
  obtain ⟨rfl, equal⟩ := List.append_inj same length
  cases equal
  exact ⟨rfl, rfl⟩

/-- Reading on behind some lines comes to what all lines say, or to their first malformed line. -/
theorem readLines_cases (well : WellFormed before) (rest : List String) :
    WellFormed (before ++ rest) ∧
        readLines (contentsOf before) (sectionAfter before) (before.length + 2) rest =
          .ok (contentsOf (before ++ rest)) ∨
      ∃ number line, IsFirstMalformed (before ++ rest) number line ∧
        readLines (contentsOf before) (sectionAfter before) (before.length + 2) rest =
          .error (.malformedLine number line) := by
  induction rest generalizing before with
  | nil => exact .inl ⟨by rwa [List.append_nil], by rw [readLines, List.append_nil]⟩
  | cons line rest ih =>
    cases read : statement? (sectionAfter before) (wordsOf line) with
    | none =>
      refine .inr ⟨before.length + 2, line, ⟨before, rest, rfl, rfl, statement?_eq_none_iff.mp read, well⟩, ?_⟩
      rw [readLines, read]
    | some statement =>
      have fine : ¬ Malformed (sectionAfter before) (wordsOf line) := by
        rw [← statement?_eq_none_iff, read]
        exact Option.some_ne_none _
      have step : readLines (contentsOf before) (sectionAfter before) (before.length + 2) (line :: rest) =
          readLines (contentsOf (before ++ [line])) (sectionAfter (before ++ [line])) ((before ++ [line]).length + 2)
            rest := by
        rw [readLines, read, contentsOf_append read, sectionAfter_append, ← after_eq read, List.length_append,
          List.length_singleton]
      have next := ih (wellFormed_append.mpr ⟨well, fine⟩)
      rwa [← step, List.append_assoc, List.singleton_append] at next

/-! ## Texts -/

/-- The first line, without the blanks at its ends and in capitals, starts with the magic word. -/
def HasHeader (text : String) : Prop :=
  ∃ header, (Text.lines text).head? = some header ∧ (Text.upper (Text.trim header)).startsWith magic = true

/-- The lines behind the first one, without the blanks at their ends. -/
def laterLines (text : String) : List String := (Text.lines text).tail.map Text.trim

theorem read_of_not_hasHeader (lacks : ¬ HasHeader text) : read text = .error .notStp := by
  rw [read]
  cases split : Text.lines text with
  | nil => rfl
  | cons header rest =>
    have other : ¬ isHeader (Text.trim header) = true :=
      fun opens => lacks ⟨header, by rw [split, List.head?_cons], opens⟩
    rw [List.map_cons]
    exact if_neg other

theorem read_of_hasHeader (header : HasHeader text) : read text = readLines {} .other 2 (laterLines text) := by
  obtain ⟨first, head, opens⟩ := header
  obtain ⟨rest, split⟩ := List.head?_eq_some_iff.mp head
  rw [read, laterLines, split, List.map_cons, List.tail_cons]
  exact if_pos opens

/-- A text with a header comes to what its lines say, or to their first malformed line. -/
theorem read_cases (header : HasHeader text) :
    WellFormed (laterLines text) ∧ read text = .ok (contentsOf (laterLines text)) ∨
      ∃ number line, IsFirstMalformed (laterLines text) number line ∧
        read text = .error (.malformedLine number line) := by
  rw [read_of_hasHeader header]
  have empty : WellFormed [] := fun before line after same => by cases before <;> cases same
  exact readLines_cases empty (laterLines text)

/-- A text is read if it has a header and its lines are well-formed. -/
theorem read_eq_ok_iff {contents : Contents} : read text = .ok contents ↔
    HasHeader text ∧ WellFormed (laterLines text) ∧ contents = contentsOf (laterLines text) := by
  by_cases header : HasHeader text
  · rw [and_iff_right header]
    rcases read_cases header with ⟨well, accepted⟩ | ⟨number, line, first, refused⟩
    · rw [accepted, and_iff_right well, Except.ok.injEq, eq_comm]
    · rw [refused]
      exact iff_of_false nofun fun read => first.not_wellFormed read.1
  · rw [read_of_not_hasHeader header]
    exact iff_of_false nofun fun read => header read.1

/-- A text is refused if it has no header, or else at its first malformed line. -/
theorem read_eq_error_iff {failure : Failure} : read text = .error failure ↔
    failure = .notStp ∧ ¬ HasHeader text ∨
      ∃ number line, failure = .malformedLine number line ∧ HasHeader text ∧
        IsFirstMalformed (laterLines text) number line := by
  by_cases header : HasHeader text
  · simp only [header, not_true_eq_false, and_false, false_or, true_and]
    rcases read_cases header with ⟨well, accepted⟩ | ⟨number, line, first, refused⟩
    · rw [accepted]
      exact iff_of_false nofun fun ⟨_, _, _, first⟩ => first.not_wellFormed well
    · rw [refused, Except.error.injEq]
      constructor
      · rintro rfl
        exact ⟨number, line, rfl, first⟩
      · rintro ⟨number', line', rfl, other⟩
        obtain ⟨rfl, rfl⟩ := first.unique other
        rfl
  · rw [read_of_not_hasHeader header, Except.error.injEq]
    simp only [header, not_false_eq_true, and_true, false_and, and_false, exists_false, or_false, eq_comm]

/-- The numbers that bound the nodes of some lines from above: the last one that is announced, and one more than each
node that is named. -/
def bounds (lines : List String) : Set Int :=
  {0, (given count? lines).getLast?.getD 0} ∪
    {bound | ∃ node ∈ (contentsOf lines).named, bound = node + 1}

/-- The instance of some lines, with a number of nodes. -/
def instanceOf (lines : List String) (size : Nat) (name : Value) : Value :=
  .dict [
    ("nodes", .list ((List.range size).map fun node : Nat => .int node)),
    ("edges", .list ((firstPairs (given pair? lines)).mapIdx fun i edge =>
      .dict [("source", .int edge.1), ("target", .int edge.2), ("name", .text s!"e{i + 1}")])),
    ("terminals", .list ((given terminal? lines).map .int)),
    ("instance_name", name),
    ("metadata", .dict [
      ("generator", .text "steinlib"),
      ("size", .int size),
      ("params", .dict [
        ("format", .text "stp"),
        ("weighted_source", .bool (given weight? lines != [])),
        ("directed_source", .bool (given arc? lines != []))])])]

theorem withNodes_eq_instanceOf (lines : List String) (name : Value) :
    (contentsOf lines).withNodes name (contentsOf lines).labels = instanceOf lines (contentsOf lines).size name := by
  simp only [Contents.withNodes, Contents.labels, Value.numbers, instanceOf, namedEdges_eq_mapIdx, Nat.add_comm 1]
  rfl

/-- There is one greatest bound, the number of nodes. -/
theorem exists_isGreatest_iff {p : Nat → Prop} :
    (∃ size : Nat, IsGreatest (bounds lines) (size : Int) ∧ p size) ↔ p (contentsOf lines).size := by
  have greatest : IsGreatest (bounds lines) ((contentsOf lines).size : Int) := (contentsOf lines).isGreatest_size
  constructor
  · rintro ⟨size, also, holds⟩
    rwa [Int.natCast_inj.mp (greatest.unique also)]
  · exact fun holds => ⟨_, greatest, holds⟩

/-- Parsing succeeds if the text is read and a list has room for its nodes. -/
theorem parse_eq_ok_iff {problem : Value} {log : Log} : parse text name = .ok (problem, log) ↔
    HasHeader text ∧ WellFormed (laterLines text) ∧ (contentsOf (laterLines text)).size < Nat.pow 2 60 ∧
      problem = instanceOf (laterLines text) (contentsOf (laterLines text)).size name ∧
      log = (contentsOf (laterLines text)).warnings name := by
  simp only [parse, bind_eq_ok_iff, read_eq_ok_iff, Contents.toInstance_eq_ok_iff, pure_eq_ok_iff, Prod.mk.injEq]
  constructor
  · rintro ⟨_, ⟨header, well, rfl⟩, _, ⟨short, rfl⟩, rfl, rfl⟩
    exact ⟨header, well, short, withNodes_eq_instanceOf _ _, rfl⟩
  · rintro ⟨header, well, short, rfl, rfl⟩
    exact ⟨_, ⟨header, well, rfl⟩, _, ⟨short, rfl⟩, (withNodes_eq_instanceOf _ _).symm, rfl⟩

/-- Parsing fails if the text is refused or a list has no room for its nodes. -/
theorem parse_eq_error_iff {failure : Failure} : parse text name = .error failure ↔
    read text = .error failure ∨ HasHeader text ∧ WellFormed (laterLines text) ∧
      Value.LacksSpace (contentsOf (laterLines text)).size failure := by
  simp only [parse, bind_eq_error_iff, read_eq_ok_iff, Contents.toInstance_eq_error_iff]
  refine or_congr_right ?_
  constructor
  · rintro ⟨_, ⟨header, well, rfl⟩, lacks | ⟨_, _, ⟨⟩⟩⟩
    exact ⟨header, well, lacks⟩
  · rintro ⟨header, well, lacks⟩
    exact ⟨_, ⟨header, well, rfl⟩, .inl lacks⟩

/-- What parsing a text comes to: it fails without a header, or else at the first malformed line, or else if a list has
no room for its nodes, or else gives the instance of its lines. -/
theorem parse_grammar (text : String) (name : Value) :
    (parse text name = .error .notStp ↔ ¬ HasHeader text) ∧
    (∀ number line, parse text name = .error (.malformedLine number line) ↔
      HasHeader text ∧ IsFirstMalformed (laterLines text) number line) ∧
    (∀ problem log, parse text name = .ok (problem, log) ↔
      HasHeader text ∧ WellFormed (laterLines text) ∧
      (∃ size : Nat, IsGreatest (bounds (laterLines text)) (size : Int) ∧ size < Nat.pow 2 60 ∧
        problem = instanceOf (laterLines text) size name) ∧
      log = (contentsOf (laterLines text)).warnings name) ∧
    (parse text name = .error .outOfMemory ↔
      HasHeader text ∧ WellFormed (laterLines text) ∧
      ∃ size : Nat, IsGreatest (bounds (laterLines text)) (size : Int) ∧ Nat.pow 2 60 ≤ size ∧ size < Nat.pow 2 63) ∧
    (parse text name = .error .countTooLarge ↔
      HasHeader text ∧ WellFormed (laterLines text) ∧
      ∃ size : Nat, IsGreatest (bounds (laterLines text)) (size : Int) ∧ Nat.pow 2 63 ≤ size) ∧
    (∀ failure, parse text name = .error failure →
      failure = .notStp ∧ failure.kind = "ValueError" ∧
          failure.message = "Not a SteinLib file: missing '33D32945 STP File' header" ∨
        (∃ number line, failure = .malformedLine number line ∧ failure.kind = "ValueError" ∧
          failure.message = s!"Malformed line {number}: " ++ Text.quoted line) ∨
        failure = .outOfMemory ∧ failure.kind = "MemoryError" ∨
        failure = .countTooLarge ∧ failure.kind = "OverflowError") := by
  simp only [parse_eq_ok_iff, parse_eq_error_iff, read_eq_error_iff, Value.lacksSpace_iff, exists_isGreatest_iff]
  refine ⟨?_, ?_, ?_, ?_, ?_, ?_⟩
  · simp only [reduceCtorEq, true_and, false_and, and_false, exists_false, or_false]
  · intro number line
    simp only [reduceCtorEq, false_and, and_false, false_or, or_false, Failure.malformedLine.injEq]
    constructor
    · rintro ⟨_, _, ⟨rfl, rfl⟩, first⟩
      exact first
    · exact fun first => ⟨number, line, ⟨rfl, rfl⟩, first⟩
  · simp only [and_assoc, implies_true]
  · simp only [reduceCtorEq, true_and, false_and, exists_false, false_or, or_false]
  · simp only [reduceCtorEq, true_and, false_and, exists_false, false_or]
  · rintro failure ((⟨rfl, -⟩ | ⟨number, line, rfl, -⟩) | ⟨-, -, ⟨rfl, -⟩ | ⟨rfl, -⟩⟩)
    · exact .inl ⟨rfl, rfl, rfl⟩
    · exact .inr (.inl ⟨number, line, rfl, rfl, rfl⟩)
    · exact .inr (.inr (.inl ⟨rfl, rfl⟩))
    · exact .inr (.inr (.inr ⟨rfl, rfl⟩))

/-- A text of which every line is as it should be, and which is refused for the number of its nodes. -/
theorem parse_uncountable :
    HasHeader "33D32945 STP File\nSECTION Graph\nNodes 99999999999999999999\n" ∧
    WellFormed (laterLines "33D32945 STP File\nSECTION Graph\nNodes 99999999999999999999\n") ∧
    parse "33D32945 STP File\nSECTION Graph\nNodes 99999999999999999999\n" (.text "stp") =
      .error .countTooLarge := by
  have accepted : read "33D32945 STP File\nSECTION Graph\nNodes 99999999999999999999\n" =
      .ok { nodes := 99999999999999999999 } := eq_ok_of_toOption (by decide +kernel)
  obtain ⟨header, well, same⟩ := read_eq_ok_iff.mp accepted
  refine ⟨header, well, parse_eq_error_iff.mpr (.inr ⟨header, well, ?_⟩)⟩
  rw [← same]
  exact .counting (by decide)

end SteinerTrees.SteinLib
