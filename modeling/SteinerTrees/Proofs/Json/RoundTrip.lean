import SteinerTrees.Proofs.Json.Storable

/-! # Writing and reading

What a file can hold is read back as it was written: a scalar from its text, a compound value from its members, each of
which ends at a comma or at the end of a line. -/

namespace SteinerTrees.Json

variable {limit : ℕ∞} {c : Char} {level fuel : Nat} {text rest sep : List Char} {value : Value} {items : List Value}
  {entries : List (String × Value)}

/-! ## Texts of values -/

/-- The characters of a value that starts at a level. -/
def chars (level : Nat) (value : Value) : List Char := (indented level value).toList

/-- The characters of an entry that starts at a level. -/
def entryChars (level : Nat) (entry : String × Value) : List Char :=
  (quote true entry.1).toList ++ ':' :: ' ' :: chars level entry.2

/-- The end of a line, with the blanks of a level. -/
def lineEnd (level : Nat) : List Char := '\n' :: List.replicate (2 * level) ' '

/-- Members of a compound value between its brackets. -/
def blockChars (opening closing : Char) (level : Nat) (members : List (List Char)) : List Char :=
  opening :: (lineEnd (level + 1) ++ (',' :: lineEnd (level + 1)).intercalate members ++ lineEnd level ++ [closing])

theorem indentedItems_eq (level : Nat) (items : List Value) :
    indentedItems level items = items.map (indented level) := by
  induction items with
  | nil => rfl
  | cons item items ih => rw [indentedItems, ih, List.map_cons]

theorem indentedEntries_eq (level : Nat) (entries : List (String × Value)) :
    indentedEntries level entries = entries.map fun entry => quote true entry.1 ++ ": " ++ indented level entry.2 := by
  induction entries with
  | nil => rfl
  | cons entry entries ih => rw [indentedEntries, ih, List.map_cons]

theorem toList_block {members : List String} (nonempty : members ≠ []) (opening closing : Char) (level : Nat) :
    (block (String.singleton opening) (String.singleton closing) level members).toList =
      blockChars opening closing level (members.map String.toList) := by
  simp [block, nonempty, newline, blockChars, lineEnd, String.toList_intercalate]

theorem chars_list (nonempty : items ≠ []) (level : Nat) :
    chars level (.list items) = blockChars '[' ']' level (items.map (chars (level + 1))) := by
  have texts : indentedItems (level + 1) items ≠ [] := by
    rw [indentedItems_eq]
    exact fun none => nonempty (List.map_eq_nil_iff.mp none)
  have shape := toList_block texts '[' ']' level
  rw [indentedItems_eq, List.map_map] at shape
  rw [chars, indented, indentedItems_eq]
  exact shape

theorem chars_dict (nonempty : entries ≠ []) (level : Nat) :
    chars level (.dict entries) = blockChars '\x7b' '\x7d' level (entries.map (entryChars (level + 1))) := by
  have texts : indentedEntries (level + 1) entries ≠ [] := by
    rw [indentedEntries_eq]
    exact fun none => nonempty (List.map_eq_nil_iff.mp none)
  have shape := toList_block texts '\x7b' '\x7d' level
  have text : (String.toList ∘ fun entry : String × Value =>
      quote true entry.1 ++ ": " ++ indented (level + 1) entry.2) = entryChars (level + 1) := by
    funext entry
    rw [Function.comp_apply, String.toList_append, String.toList_append, List.append_assoc]
    rfl
  rw [indentedEntries_eq, List.map_map, text] at shape
  rw [chars, indented, indentedEntries_eq]
  exact shape

theorem chars_null (level : Nat) : chars level .null = ['n', 'u', 'l', 'l'] := by
  change "null".toList = _
  simp

theorem chars_bool (level : Nat) (b : Bool) : chars level (.bool b) = (if b then "true" else "false").toList := rfl

theorem chars_int (level : Nat) (n : Int) : chars level (.int n) = (toString n).toList := rfl

theorem chars_float (level : Nat) (x : Binary64) : chars level (.float x) = (x.render "Infinity" "NaN").toList := rfl

theorem chars_text (level : Nat) (s : String) : chars level (.text s) = (quote true s).toList := rfl

theorem chars_list_nil (level : Nat) : chars level (.list []) = ['[', ']'] := by
  change ("[" ++ "]").toList = _
  simp

theorem chars_dict_nil (level : Nat) : chars level (.dict []) = ['\x7b', '\x7d'] := by
  change ("\x7b" ++ "\x7d").toList = _
  simp

/-! ## Blanks -/

/-- A text starts with a character that is no blank and closes nothing. -/
def Starts (text : List Char) : Prop := ∃ c rest, text = c :: rest ∧ isSpace c = false ∧ c ≠ ']' ∧ c ≠ '\x7d'

theorem Starts.append (starts : Starts text) (rest : List Char) : Starts (text ++ rest) := by
  obtain ⟨c, others, rfl, plain⟩ := starts
  exact ⟨c, others ++ rest, rfl, plain⟩

theorem skip_of_starts (starts : Starts text) : skip text = text := by
  obtain ⟨c, rest, rfl, plain, -, -⟩ := starts
  exact List.dropWhile_cons_of_neg (by rw [plain]; decide)

theorem skip_lineEnd (level : Nat) (text : List Char) : skip (lineEnd level ++ text) = skip text := by
  refine List.dropWhile_append_of_pos fun c member => ?_
  rcases List.mem_cons.mp member with rfl | blank
  · rfl
  · rw [List.eq_of_mem_replicate blank]
    rfl

/-! ## Values that are read back -/

/-- A value is read back from its text, wherever it stands. -/
structure IsRead (value : Value) : Prop where
  starts (level : Nat) : Starts (chars level value)
  read {level fuel : Nat} {rest : List Char} : 2 * (chars level value).length ≤ fuel → Closes rest →
    readValue fuel (chars level value ++ rest) = .ok (value, rest)

theorem isRead_of_readScalar (same : ∀ level, chars level value = c :: text) (plain : isPlain c = true)
    (read : ∀ rest, Closes rest → readScalar (c :: text ++ rest) = .ok (value, rest)) : IsRead value := by
  have others := plain
  simp only [isPlain, Bool.and_eq_true, Bool.not_eq_true', bne_iff_ne] at others
  obtain ⟨⟨⟨⟨blank, opening⟩, closing⟩, brace⟩, closing_brace⟩ := others
  refine ⟨fun level => ⟨c, text, same level, blank, closing, closing_brace⟩, fun {level fuel rest} fits closes => ?_⟩
  rw [same, List.length_cons] at fits
  obtain ⟨fuel, rfl⟩ : ∃ less, fuel = less + 1 := ⟨fuel - 1, by omega⟩
  rw [same, ← read rest closes]
  exact readValue.eq_3 (c :: text ++ rest) fuel (by rintro _ ⟨⟩; exact opening rfl) (by rintro _ ⟨⟩; exact brace rfl)

theorem isRead_of_plain (same : ∀ level, chars level value = text) (plain : Plain text) (nonempty : text ≠ [])
    (read : ∀ rest, Closes rest → readScalar (text ++ rest) = .ok (value, rest)) : IsRead value := by
  obtain ⟨c, text, rfl⟩ := List.exists_cons_of_ne_nil nonempty
  exact isRead_of_readScalar same (plain c List.mem_cons_self) read

/-! ## Members -/

theorem closes_lineEnd (level : Nat) (rest : List Char) : Closes (lineEnd level ++ rest) := by
  rintro c ⟨⟩
  exact .inr rfl

theorem closes_comma (rest : List Char) : Closes (',' :: rest) := by
  rintro c ⟨⟩
  exact .inl rfl

theorem starts_intercalate (sep : List Char) {texts : List (List Char)} (starts : ∀ text ∈ texts, Starts text)
    (nonempty : texts ≠ []) :
    Starts (sep.intercalate texts) := by
  obtain ⟨text, texts, rfl⟩ := List.exists_cons_of_ne_nil nonempty
  have first := starts text List.mem_cons_self
  rcases eq_or_ne texts [] with rfl | more
  · rwa [List.intercalate_singleton]
  · rw [List.intercalate_cons_of_ne_nil more, List.append_assoc]
    exact first.append _

theorem readItems_members {below : Nat} (read : ∀ item ∈ items, IsRead item) (nonempty : items ≠ []) (rest : List Char)
    (fits : 2 * ((',' :: lineEnd level).intercalate (items.map (chars level))).length < fuel) :
    readItems fuel ((',' :: lineEnd level).intercalate (items.map (chars level)) ++ (lineEnd below ++ ']' :: rest)) =
      .ok (items, rest) := by
  induction items generalizing fuel with
  | nil => exact absurd rfl nonempty
  | cons item items ih =>
    obtain ⟨first, others⟩ := List.forall_mem_cons.mp read
    obtain ⟨fuel, rfl⟩ : ∃ less, fuel = less + 1 := ⟨fuel - 1, by omega⟩
    rw [List.map_cons] at fits ⊢
    rw [readItems]
    rcases eq_or_ne items [] with rfl | more
    · rw [List.map_nil, List.intercalate_singleton] at fits ⊢
      rw [first.read (by omega) (closes_lineEnd below _)]
      simp only [bind, Except.bind, skip_lineEnd]
      rfl
    · have texts : items.map (chars level) ≠ [] := fun none => more (List.map_eq_nil_iff.mp none)
      have starts := starts_intercalate (',' :: lineEnd level)
        (List.forall_mem_map.mpr fun item member => (others item member).starts level) texts
      rw [List.intercalate_cons_of_ne_nil texts, List.length_append, List.length_append, List.length_cons] at fits
      rw [List.intercalate_cons_of_ne_nil texts, List.append_assoc, List.append_assoc, List.cons_append,
        first.read (by omega) (closes_comma _)]
      have comma (rest : List Char) : skip (',' :: rest) = ',' :: rest := rfl
      simp only [bind, Except.bind, comma, skip_lineEnd]
      rw [skip_of_starts (starts.append _), ih others more (by omega)]
      rfl

theorem entryChars_append (level : Nat) (entry : String × Value) (rest : List Char) : entryChars level entry ++ rest =
    '"' :: ((Text.points entry.1).flatMap escapePoint ++ '"' :: ':' :: ' ' :: (chars level entry.2 ++ rest)) := by
  simp [entryChars, toList_quote]

theorem starts_entryChars (level : Nat) (entry : String × Value) : Starts (entryChars level entry) := by
  have shape := entryChars_append level entry []
  rw [List.append_nil] at shape
  exact ⟨'"', _, shape, rfl, by decide, by decide⟩

/-- The name of an entry and the value under it are read up to the end of the entry. -/
theorem readEntries_entry {entry : String × Value} (joined : Joined (Text.points entry.1)) (read : IsRead entry.2)
    (fits : 2 * (chars level entry.2).length ≤ fuel) (closes : Closes rest) :
    readEntries (fuel + 1) (entryChars level entry ++ rest) = match skip rest with
      | ',' :: rest => do
        let (entries, rest) ← readEntries fuel (skip rest)
        return (entry :: entries, rest)
      | '\x7d' :: rest => return ([entry], rest)
      | _ => throw .jsonSyntax := by
  have colon (rest : List Char) : skip (':' :: rest) = ':' :: rest := rfl
  have blank (rest : List Char) : skip (' ' :: rest) = skip rest := rfl
  have opened := congrArg (readEntries (fuel + 1)) (entryChars_append level entry rest)
  rw [readEntries.eq_1, readText_quote joined] at opened
  simp only [bind, Except.bind, colon, blank, skip_of_starts ((read.starts level).append rest),
    read.read fits closes] at opened
  exact opened

theorem readEntries_members {below : Nat} (read : ∀ entry ∈ entries, Joined (Text.points entry.1) ∧ IsRead entry.2)
    (nonempty : entries ≠ []) (rest : List Char)
    (fits : 2 * ((',' :: lineEnd level).intercalate (entries.map (entryChars level))).length < fuel) :
    readEntries fuel
      ((',' :: lineEnd level).intercalate (entries.map (entryChars level)) ++ (lineEnd below ++ '\x7d' :: rest)) =
      .ok (entries, rest) := by
  induction entries generalizing fuel with
  | nil => exact absurd rfl nonempty
  | cons entry entries ih =>
    obtain ⟨⟨joined, first⟩, others⟩ := List.forall_mem_cons.mp read
    obtain ⟨fuel, rfl⟩ : ∃ less, fuel = less + 1 := ⟨fuel - 1, by omega⟩
    have longer : (chars level entry.2).length ≤ (entryChars level entry).length := by
      rw [entryChars, List.length_append, List.length_cons, List.length_cons]
      omega
    rw [List.map_cons] at fits ⊢
    rcases eq_or_ne entries [] with rfl | more
    · rw [List.map_nil, List.intercalate_singleton] at fits ⊢
      rw [readEntries_entry joined first (by omega) (closes_lineEnd below _), skip_lineEnd]
      rfl
    · have texts : entries.map (entryChars level) ≠ [] := fun none => more (List.map_eq_nil_iff.mp none)
      have starts := starts_intercalate (',' :: lineEnd level)
        (List.forall_mem_map.mpr fun entry _ => starts_entryChars level entry) texts
      rw [List.intercalate_cons_of_ne_nil texts, List.length_append, List.length_append, List.length_cons] at fits
      rw [List.intercalate_cons_of_ne_nil texts, List.append_assoc, List.append_assoc, List.cons_append,
        readEntries_entry joined first (by omega) (closes_comma _)]
      have comma (rest : List Char) : skip (',' :: rest) = ',' :: rest := rfl
      simp only [comma, skip_lineEnd]
      rw [skip_of_starts (starts.append _), ih others more (by omega)]
      rfl

/-! ## Compound values -/

/-- Entries under different names are kept as they are. -/
theorem foldl_setEntry (kept : List (String × Value)) (distinct : ((kept ++ entries).map (·.1)).Nodup) :
    entries.foldl (fun kept (name, value) => Value.setEntry name value kept) kept = kept ++ entries := by
  induction entries generalizing kept with
  | nil => rw [List.foldl_nil, List.append_nil]
  | cons entry entries ih =>
    obtain ⟨name, value⟩ := entry
    rw [List.append_cons] at distinct
    have fresh : name ∉ kept.map (·.1) := by
      rw [List.map_append, List.map_append, List.nodup_append, List.nodup_append] at distinct
      exact fun old => distinct.1.2.2 name old name List.mem_cons_self rfl
    rw [List.foldl_cons]
    simp only
    rw [setEntry_of_fresh fresh, ih _ distinct, ← List.append_cons]

theorem dictOfEntries_eq (distinct : (entries.map (·.1)).Nodup) : Value.dictOfEntries entries = .dict entries :=
  congrArg Value.dict (foldl_setEntry [] distinct)

theorem blockChars_append (opening closing : Char) (level : Nat) (members : List (List Char)) (rest : List Char) :
    blockChars opening closing level members ++ rest =
      opening :: (lineEnd (level + 1) ++
        ((',' :: lineEnd (level + 1)).intercalate members ++ (lineEnd level ++ closing :: rest))) := by
  simp [blockChars]

theorem length_blockChars (opening closing : Char) (level : Nat) (members : List (List Char)) :
    ((',' :: lineEnd (level + 1)).intercalate members).length + 2 ≤
      (blockChars opening closing level members).length := by
  simp only [blockChars, List.length_cons, List.length_append, List.length_nil]
  omega

theorem isRead_list (read : ∀ item ∈ items, IsRead item) : IsRead (.list items) := by
  rcases eq_or_ne items [] with rfl | nonempty
  · refine ⟨fun level => ⟨'[', _, chars_list_nil level, rfl, by decide, by decide⟩, fun {level fuel rest} fits _ => ?_⟩
    rw [chars_list_nil] at fits ⊢
    obtain ⟨fuel, rfl⟩ : ∃ less, fuel = less + 1 := ⟨fuel - 1, by simp at fits; omega⟩
    rfl
  · refine ⟨fun level => ⟨'[', _, chars_list nonempty level, rfl, by decide, by decide⟩,
      fun {level fuel rest} fits _ => ?_⟩
    have longer := length_blockChars '[' ']' level (items.map (chars (level + 1)))
    have starts := (starts_intercalate (',' :: lineEnd (level + 1))
      (List.forall_mem_map.mpr fun item member => (read item member).starts (level + 1))
      (fun none => nonempty (List.map_eq_nil_iff.mp none))).append (lineEnd level ++ ']' :: rest)
    rw [chars_list nonempty] at fits ⊢
    obtain ⟨fuel, rfl⟩ : ∃ less, fuel = less + 1 := ⟨fuel - 1, by omega⟩
    rw [blockChars_append, readValue.eq_def]
    simp only [skip_lineEnd, skip_of_starts starts]
    split
    next after closed =>
      obtain ⟨_, _, same, -, other, -⟩ := starts
      rw [same] at closed
      cases closed
      exact absurd rfl other
    next =>
      rw [readItems_members read nonempty rest (by omega)]
      rfl

theorem isRead_dict (read : ∀ entry ∈ entries, Joined (Text.points entry.1) ∧ IsRead entry.2)
    (distinct : (entries.map (·.1)).Nodup) : IsRead (.dict entries) := by
  rcases eq_or_ne entries [] with rfl | nonempty
  · refine ⟨fun level => ⟨'\x7b', _, chars_dict_nil level, rfl, by decide, by decide⟩,
      fun {level fuel rest} fits _ => ?_⟩
    rw [chars_dict_nil] at fits ⊢
    obtain ⟨fuel, rfl⟩ : ∃ less, fuel = less + 1 := ⟨fuel - 1, by simp at fits; omega⟩
    rfl
  · refine ⟨fun level => ⟨'\x7b', _, chars_dict nonempty level, rfl, by decide, by decide⟩,
      fun {level fuel rest} fits _ => ?_⟩
    have longer := length_blockChars '\x7b' '\x7d' level (entries.map (entryChars (level + 1)))
    have starts := (starts_intercalate (',' :: lineEnd (level + 1))
      (List.forall_mem_map.mpr fun entry _ => starts_entryChars (level + 1) entry)
      (fun none => nonempty (List.map_eq_nil_iff.mp none))).append (lineEnd level ++ '\x7d' :: rest)
    rw [chars_dict nonempty] at fits ⊢
    obtain ⟨fuel, rfl⟩ : ∃ less, fuel = less + 1 := ⟨fuel - 1, by omega⟩
    rw [blockChars_append, readValue.eq_def]
    simp only [skip_lineEnd, skip_of_starts starts]
    split
    next after closed =>
      obtain ⟨_, _, same, -, -, other⟩ := starts
      rw [same] at closed
      cases closed
      exact absurd rfl other
    next =>
      rw [readEntries_members read nonempty rest (by omega), ← dictOfEntries_eq distinct]
      rfl

/-- What a file can hold is read back. -/
theorem Storable.isRead (storable : Storable limit value) : IsRead value := by
  induction storable with
  | null => exact isRead_of_plain chars_null (plain_of_all rfl) (List.cons_ne_nil _ _) fun _ _ => rfl
  | bool b =>
    refine isRead_of_plain (fun level => chars_bool level b) ?_ ?_ ?_
    · cases b <;> exact plain_of_all rfl
    · cases b <;> decide
    · cases b <;> exact fun _ _ => rfl
  | @int n short =>
    refine isRead_of_plain (fun level => chars_int level n) (plain_int n) ?_ fun _ closes => readScalar_int short closes
    rw [toList_toString_int]
    exact List.append_ne_nil_of_right_ne_nil _ Nat.toDigits_ne_nil
  | @float x canonical =>
    refine isRead_of_plain (fun level => chars_float level x) (plain_float x) ?_ fun _ closes =>
      readScalar_float canonical closes
    exact toList_render_ne_nil x
  | @text s joined few =>
    refine isRead_of_readScalar (fun level => (chars_text level s).trans (toList_quote s)) rfl fun rest _ => ?_
    rw [List.cons_append, List.append_assoc, List.singleton_append, readScalar.eq_1, readText_quote joined]
    rfl
  | list _ few ih => exact isRead_list ih
  | dict _ joined distinct few ih =>
    exact isRead_dict (fun entry member => ⟨joined entry member, ih entry member⟩) distinct

/-- A file that was written with a value is read as the value. -/
theorem read_indented (storable : Storable limit value) : read (indented 0 value) = .ok value := by
  have found := storable.isRead
  have starts := found.starts 0
  have closes : Closes [] := nofun
  have fits : 2 * (chars 0 value).length ≤ 2 * (indented 0 value).length + 2 := by
    rw [chars, String.length_toList]
    omega
  have whole := found.read fits closes
  rw [List.append_nil] at whole
  rw [read, ← chars, skip_of_starts starts, whole]
  rfl

/-! ## Line ends -/

/-- The text of a hexadecimal digit is none of the characters that end a line. -/
theorem hexDigit_ne (n : Nat) : Text.hexDigit (n % 16) ≠ '\r' := by
  have small : ∀ v < 16, Text.hexDigit v ≠ '\r' := by decide
  exact small _ (Nat.mod_lt n (by decide))

theorem notMem_unitEscape (n : Nat) : '\r' ∉ unitEscape n := by
  have digits (m : Nat) := (hexDigit_ne m).symm
  simp [unitEscape, Text.hex, digits]

theorem notMem_escapeChar (c : Char) : '\r' ∉ escapeChar c := by
  unfold escapeChar
  split_ifs with special feed back tab space form control
  · rcases special with rfl | rfl <;> simp
  · simp
  · simp
  · simp
  · simp
  · simp
  · exact notMem_unitEscape _
  · rw [List.mem_singleton]
    exact fun same => back same.symm

theorem notMem_escapePoint (n : Nat) : '\r' ∉ escapePoint n := by
  unfold escapePoint
  split
  · unfold escapeUnits
    split
    · exact notMem_unitEscape _
    · exact fun member => (List.mem_append.mp member).elim (notMem_unitEscape _) (notMem_unitEscape _)
  · exact notMem_escapeChar _

theorem notMem_quote (s : String) : '\r' ∉ (quote true s).toList := by
  rw [toList_quote, List.mem_cons, List.mem_append, List.mem_flatMap]
  rintro (quoted | ⟨n, -, member⟩ | quoted)
  · cases quoted
  · exact notMem_escapePoint n member
  · simp at quoted

theorem Plain.notMem (plain : Plain text) : '\r' ∉ text := fun member => by cases plain '\r' member

theorem notMem_lineEnd (level : Nat) : '\r' ∉ lineEnd level := by
  rw [lineEnd, List.mem_cons, List.mem_replicate]
  rintro (same | ⟨-, same⟩) <;> cases same

theorem notMem_intercalate {texts : List (List Char)} (between : c ∉ sep) (inside : ∀ text ∈ texts, c ∉ text) :
    c ∉ sep.intercalate texts := by
  induction texts with
  | nil => exact List.not_mem_nil
  | cons text texts ih =>
    obtain ⟨here, others⟩ := List.forall_mem_cons.mp inside
    rcases eq_or_ne texts [] with rfl | more
    · rwa [List.intercalate_singleton]
    · rw [List.intercalate_cons_of_ne_nil more, List.mem_append, List.mem_append]
      rintro ((member | member) | member)
      · exact here member
      · exact between member
      · exact ih others member

theorem notMem_blockChars {opening closing : Char} {members : List (List Char)} (first : '\r' ≠ opening)
    (last : '\r' ≠ closing) (inside : ∀ text ∈ members, '\r' ∉ text) :
    '\r' ∉ blockChars opening closing level members := by
  have between : '\r' ∉ ',' :: lineEnd (level + 1) :=
    fun member => (List.mem_cons.mp member).elim (by decide) (notMem_lineEnd _)
  simp only [blockChars, List.mem_cons, List.mem_append, List.not_mem_nil, or_false]
  rintro (same | ((blank | inner) | blank) | same)
  · exact first same
  · exact notMem_lineEnd _ blank
  · exact notMem_intercalate between inside inner
  · exact notMem_lineEnd _ blank
  · exact last same

/-- A text that is written has no carriage return, so its line ends stay when it is read as a file. -/
theorem Storable.notMem_chars (storable : Storable limit value) (level : Nat) : '\r' ∉ chars level value := by
  induction storable generalizing level with
  | null => simp [chars_null]
  | bool b =>
    rw [chars_bool]
    cases b <;> exact (plain_of_all rfl).notMem
  | @int n =>
    rw [chars_int]
    exact (plain_int n).notMem
  | @float x =>
    rw [chars_float]
    exact (plain_float x).notMem
  | @text s =>
    rw [chars_text]
    exact notMem_quote s
  | @list items _ _ ih =>
    rcases eq_or_ne items [] with rfl | nonempty
    · simp [chars_list_nil]
    · rw [chars_list nonempty]
      exact notMem_blockChars (by decide) (by decide) (List.forall_mem_map.mpr fun item member => ih item member _)
  | @dict entries _ _ _ _ ih =>
    rcases eq_or_ne entries [] with rfl | nonempty
    · simp [chars_dict_nil]
    · rw [chars_dict nonempty]
      refine notMem_blockChars (by decide) (by decide) (List.forall_mem_map.mpr fun entry member => ?_)
      rw [entryChars, List.mem_append, List.mem_cons, List.mem_cons]
      rintro (name | colon | blank | inner)
      · exact notMem_quote _ name
      · cases colon
      · cases blank
      · exact ih entry member _ inner

end SteinerTrees.Json
