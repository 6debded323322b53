import SteinerTrees.Json.Printer
import SteinerTrees.Proofs.Json.Units

/-! # Texts between quotes

A text in ASCII is read back unit by unit: each code point is written by escapes that give exactly its UTF-16 units. So
every text without split pairs comes back, and every text that is read is one. -/

namespace SteinerTrees.Json

open Text

variable {c : Char} {n held : Nat} {codes : List Nat} {s : String} {text rest : List Char}

/-! ## Escapes -/

theorem hexValue?_hexDigit : ∀ v < 16, hexValue? (hexDigit v) = some v := by decide

theorem unit?_hex (bound : n < 0x10000) : unit? (hexDigit (n / 16 / 16 / 16 % 16)) (hexDigit (n / 16 / 16 % 16))
    (hexDigit (n / 16 % 16)) (hexDigit (n % 16)) = some n := by
  have digit (m : Nat) : hexValue? (hexDigit (m % 16)) = some (m % 16) :=
    hexValue?_hexDigit _ (Nat.mod_lt _ (by decide))
  simp only [unit?, digit, bind, Option.bind, pure, Option.some.injEq]
  omega

/-- Puts codes in front of those that were read. -/
def prepend (units : List Nat) (found : Option (List Nat × List Char)) : Option (List Nat × List Char) :=
  found.map fun (codes, rest) => (units ++ codes, rest)

theorem readCodes_unitEscape (bound : n < 0x10000) (rest : List Char) :
    readCodes 0 (unitEscape n ++ rest) = prepend [n] (readCodes 0 rest) := by
  simp only [unitEscape, hex, List.nil_append, List.cons_append, readCodes, unit?_hex bound]
  cases readCodes 0 rest <;> rfl

theorem readCodes_escapeUnits (bound : n ≤ lastPoint) (rest : List Char) :
    readCodes 0 (escapeUnits n ++ rest) = prepend (units n) (readCodes 0 rest) := by
  rw [lastPoint] at bound
  unfold escapeUnits units
  split
  next narrow => exact readCodes_unitEscape narrow rest
  next wide =>
    rw [List.append_assoc, readCodes_unitEscape (by omega), readCodes_unitEscape (by omega)]
    cases readCodes 0 rest <;> rfl

theorem readCodes_shortEscape {letter : Char} (escape : shortEscape? letter = some c) (rest : List Char) :
    readCodes 0 ('\\' :: letter :: rest) = prepend [c.toNat] (readCodes 0 rest) := by
  have other : letter ≠ 'u' := by
    rintro rfl
    cases escape
  rw [readCodes.eq_3 _ _ _ (by simp [other]), escape]
  cases readCodes 0 rest <;> rfl

theorem readCodes_plain (printable : ¬ c.toNat < 0x20) (low : c.toNat ≤ 0x7E) (unquoted : c ≠ '"')
    (unescaped : c ≠ '\\') (rest : List Char) : readCodes 0 (c :: rest) = prepend [c.toNat] (readCodes 0 rest) := by
  have unmarked : c ≠ mark := by
    rw [Ne, eq_mark_iff, lastPoint]
    omega
  rw [readCodes.eq_4 _ _ _ (by simp [unquoted]) (by simp [unescaped]) (by simp [unescaped]), if_neg printable,
    if_neg unmarked, pointsOf_zero]
  rfl

/-- A character up to the tilde is read back as its code point. -/
theorem readCodes_escapeChar (low : c.toNat ≤ 0x7E) (rest : List Char) :
    readCodes 0 (escapeChar c ++ rest) = prepend [c.toNat] (readCodes 0 rest) := by
  unfold escapeChar
  split_ifs with special feed back tab space form control
  · rcases special with rfl | rfl <;> exact readCodes_shortEscape (by decide) rest
  · subst feed
    exact readCodes_shortEscape (by decide) rest
  · subst back
    exact readCodes_shortEscape (by decide) rest
  · subst tab
    exact readCodes_shortEscape (by decide) rest
  · subst space
    exact readCodes_shortEscape (by decide) rest
  · subst form
    exact readCodes_shortEscape (by decide) rest
  · exact readCodes_unitEscape (by omega) rest
  · exact readCodes_plain control low (fun same => special (.inl same)) (fun same => special (.inr same)) rest

/-- A code point is read back as its units. -/
theorem readCodes_escapePoint (bound : n ≤ lastPoint) (rest : List Char) :
    readCodes 0 (escapePoint n ++ rest) = prepend (units n) (readCodes 0 rest) := by
  unfold escapePoint
  split
  next => exact readCodes_escapeUnits bound rest
  next low =>
    have place : (Char.ofNat n).toNat = n := toNat_ofNat (by omega)
    rw [readCodes_escapeChar (by omega), place, units, if_pos (by omega)]

theorem readCodes_escaped (bounded : ∀ code ∈ codes, code ≤ lastPoint) (rest : List Char) :
    readCodes 0 (codes.flatMap escapePoint ++ '"' :: rest) = some (codes.flatMap units, rest) := by
  induction codes with
  | nil => rfl
  | cons code codes ih =>
    obtain ⟨bound, others⟩ := List.forall_mem_cons.mp bounded
    rw [List.flatMap_cons, List.flatMap_cons, List.append_assoc, readCodes_escapePoint bound, ih others]
    rfl

/-! ## Whole texts -/

theorem toList_quote (s : String) :
    (quote true s).toList = '"' :: ((points s).flatMap escapePoint ++ ['"']) := String.toList_ofList

/-- A text without split pairs is read back. -/
theorem readText_quote (joined : Joined (points s)) (rest : List Char) :
    readText ((points s).flatMap escapePoint ++ '"' :: rest) = .ok (s, rest) := by
  have bounded : ∀ code ∈ points s, code ≤ lastPoint := fun _ => le_of_mem_points
  rw [readText, readCodes_escaped bounded]
  simp only
  rw [joinUnits_units joined bounded, ofPoints_points]

theorem hexValue?_lt (read : hexValue? c = some n) : n < 16 := by
  unfold hexValue? at read
  simp only [Char.le_def, UInt32.le_iff_toNat_le] at read
  have value : c.toNat = c.val.toNat := rfl
  have digits : '9'.val.toNat = 57 ∧ 'f'.val.toNat = 102 ∧ 'F'.val.toNat = 70 := by decide
  split_ifs at read <;> cases read <;> omega

theorem unit?_lt {a b c d : Char} (read : unit? a b c d = some n) : n < 0x10000 := by
  simp only [unit?, Option.bind_eq_bind, Option.bind_eq_some_iff, Option.pure_def, Option.some.injEq] at read
  obtain ⟨x, first, y, second, z, third, w, fourth, rfl⟩ := read
  have first := hexValue?_lt first
  have second := hexValue?_lt second
  have third := hexValue?_lt third
  have fourth := hexValue?_lt fourth
  omega

theorem length_pointsOf_le (held : Nat) (c : Char) : (pointsOf held c).length ≤ held + 1 := by
  unfold pointsOf
  split
  · rw [List.length_append, List.length_replicate, List.length_singleton]
    omega
  · rw [List.length_append, List.length_replicate, List.length_singleton]

/-- Codes that were read behind `held` marks: code points, at least one character or mark for each. -/
structure Spells (held : Nat) (text : List Char) (codes : List Nat) (rest : List Char) : Prop where
  bounded : ∀ code ∈ codes, code ≤ lastPoint
  shorter : codes.length + rest.length < held + text.length

/-- The codes of one more part of a text, which has as many characters and marks. -/
theorem Spells.append {whole : List Char} {more : List Nat} (spells : Spells 0 text codes rest)
    (bounded : ∀ code ∈ more, code ≤ lastPoint) (longer : more.length + text.length ≤ held + whole.length) :
    Spells held whole (more ++ codes) rest where
  bounded _ member := (List.mem_append.mp member).elim (bounded _) (spells.bounded _)
  shorter := by
    have shorter := spells.shorter
    rw [List.length_append]
    omega

theorem forall_mem_replicate_append (bound : n ≤ lastPoint) :
    ∀ code ∈ List.replicate held lastPoint ++ [n], code ≤ lastPoint := by
  intro code member
  rcases List.mem_append.mp member with old | new
  · exact Nat.le_of_eq (List.eq_of_mem_replicate old)
  · exact List.mem_singleton.mp new ▸ bound

theorem readCodes_spells (read : readCodes held text = some (codes, rest)) : Spells held text codes rest := by
  fun_induction readCodes held text generalizing codes rest with
  | case1 held behind =>
    cases read
    refine ⟨fun code member => Nat.le_of_eq (List.eq_of_mem_replicate member), ?_⟩
    rw [List.length_replicate, List.length_cons]
    omega
  | case2 held a b c d behind ih =>
    simp only [Option.bind_eq_bind, Option.bind_eq_some_iff] at read
    obtain ⟨unit, four, ⟨others, after⟩, found, same⟩ := read
    cases same
    have bound := unit?_lt four
    rw [List.append_cons]
    refine (ih found).append (forall_mem_replicate_append (by rw [lastPoint]; omega)) ?_
    simp only [List.length_append, List.length_replicate, List.length_cons, List.length_nil]
    omega
  | case3 held letter behind _ ih =>
    simp only [Option.bind_eq_bind, Option.bind_eq_some_iff] at read
    obtain ⟨c, escape, ⟨others, after⟩, found, same⟩ := read
    cases same
    have valid := valid_toNat c
    rw [List.append_cons]
    refine (ih found).append (forall_mem_replicate_append (by rw [lastPoint]; omega)) ?_
    simp only [List.length_append, List.length_replicate, List.length_cons, List.length_nil]
    omega
  | case4 => cases read
  | case5 held behind _ _ _ _ ih =>
    obtain ⟨bounded, shorter⟩ := ih read
    refine ⟨bounded, ?_⟩
    rw [List.length_cons]
    omega
  | case6 held c behind _ _ _ _ other ih =>
    obtain ⟨⟨others, after⟩, found, same⟩ := Option.map_eq_some_iff.mp read
    cases same
    have fewer := length_pointsOf_le held c
    refine (ih found).append (fun _ => le_of_mem_pointsOf other) ?_
    rw [List.length_cons]
    omega
  | case7 => cases read

/-- What is read has no split pairs. -/
theorem readText_spec (read : readText text = .ok (s, rest)) :
    Joined (points s) ∧ (points s).length + rest.length < text.length := by
  unfold readText at read
  split at read
  next codes rest found =>
    cases read
    obtain ⟨bounded, shorter⟩ := readCodes_spells found
    have fewer := length_joinUnits_le codes
    rw [points_ofPoints (le_of_mem_joinUnits bounded)]
    exact ⟨joined_joinUnits codes, by omega⟩
  next => cases read

end SteinerTrees.Json
