import SteinerTrees.Text.Surrogate

/-! # Texts and their code points

A string is read as one text, and a text is held by one string: the code points of a string give the string back, and
the string of code points gives these back. Both directions count the marks that stand in front of the next character
or code point, and that count is all that has to be carried along. -/

namespace SteinerTrees.Text

variable {c : Char} {n held code : Nat} {codes : List Nat} {text : List Char} {s : String}

/-! ## Blocks -/

theorem isSurrogate_iff : isSurrogate n = true ↔ 0xD800 ≤ n ∧ n ≤ 0xDFFF := by simp [isSurrogate]

theorem isHighSurrogate_iff : isHighSurrogate n = true ↔ 0xD800 ≤ n ∧ n ≤ 0xDBFF := by simp [isHighSurrogate]

theorem isLowSurrogate_iff : isLowSurrogate n = true ↔ 0xDC00 ≤ n ∧ n ≤ 0xDFFF := by simp [isLowSurrogate]

theorem isCarrier_iff : isCarrier n = true ↔ 0xE000 ≤ n ∧ n < 0xE800 := by simp [isCarrier]

theorem valid_toNat (c : Char) : c.toNat < 0xD800 ∨ 0xDFFF < c.toNat ∧ c.toNat < 0x110000 := c.valid

theorem toNat_ofNat (valid : n < 0xD800 ∨ 0xDFFF < n ∧ n < 0x110000) : (Char.ofNat n).toNat = n := by
  rw [Char.ofNat, dif_pos valid]
  rfl

theorem toNat_mark : mark.toNat = lastPoint := rfl

theorem eq_mark_iff : c = mark ↔ c.toNat = lastPoint := by
  rw [← toNat_mark, ← Char.toNat_inj]

/-- The character of a code point that is neither the last one nor a surrogate. -/
theorem ofNat_ne_mark (below : n < lastPoint) (proper : isSurrogate n = false) : Char.ofNat n ≠ mark := by
  rw [Ne, eq_mark_iff, toNat_ofNat]
  · exact Nat.ne_of_lt below
  · rw [← Bool.not_eq_true, isSurrogate_iff] at proper
    rw [lastPoint] at below
    omega

/-! ## One character -/

/-- A character behind some marks stands for one code point behind some that are the last of all, which are held by
those marks and that character. -/
theorem exists_pointsOf (held : Nat) (other : c ≠ mark) : ∃ before code, code < lastPoint ∧
    pointsOf held c = List.replicate before lastPoint ++ [code] ∧
    charsOf before code = List.replicate held mark ++ [c] := by
  have valid := valid_toNat c
  have below : c.toNat < lastPoint := by
    rw [Ne, eq_mark_iff] at other
    rw [lastPoint] at other ⊢
    omega
  unfold pointsOf
  split
  next carrier =>
    obtain ⟨low, high⟩ := isCarrier_iff.mp carrier
    refine ⟨held / 2, _, by omega, rfl, ?_⟩
    -- after an even number of marks the character stands for itself, after an odd number for a surrogate
    rcases Nat.mod_two_eq_zero_or_one held with even | odd
    · rw [even, Nat.zero_mul, Nat.sub_zero, charsOf, if_pos carrier, Char.ofNat_toNat,
        show 2 * (held / 2) = held by omega]
    · have surrogate : isSurrogate (c.toNat - 1 * shift) = true := isSurrogate_iff.mpr (by rw [shift]; omega)
      have plain : ¬ isCarrier (c.toNat - 1 * shift) = true := by
        rw [isCarrier_iff, shift]
        omega
      rw [odd, charsOf, if_neg plain, if_pos surrogate, show 2 * (held / 2) + 1 = held by omega,
        show c.toNat - 1 * shift + shift = c.toNat by rw [shift]; omega, Char.ofNat_toNat]
  next plain =>
    have proper : ¬ isSurrogate c.toNat = true := by
      rw [isSurrogate_iff]
      omega
    exact ⟨held, c.toNat, below, rfl, by rw [charsOf, if_neg plain, if_neg proper, Char.ofNat_toNat]⟩

/-- The same the other way round. -/
theorem exists_charsOf (held : Nat) (below : code < lastPoint) : ∃ before c, c ≠ mark ∧
    charsOf held code = List.replicate before mark ++ [c] ∧
    pointsOf before c = List.replicate held lastPoint ++ [code] := by
  unfold charsOf
  split
  next carrier =>
    obtain ⟨low, high⟩ := isCarrier_iff.mp carrier
    have place : (Char.ofNat code).toNat = code := toNat_ofNat (by omega)
    refine ⟨2 * held, _, ofNat_ne_mark below ?_, rfl, ?_⟩
    · rw [← Bool.not_eq_true, isSurrogate_iff]
      omega
    · rw [pointsOf, place, if_pos carrier, Nat.mul_mod_right, Nat.zero_mul, Nat.sub_zero,
        Nat.mul_div_cancel_left held (by decide)]
  next plain =>
    split
    next surrogate =>
      obtain ⟨low, high⟩ := isSurrogate_iff.mp surrogate
      have place : (Char.ofNat (code + shift)).toNat = code + shift := toNat_ofNat (by rw [shift]; omega)
      have carrier : isCarrier (code + shift) = true := isCarrier_iff.mpr (by rw [shift]; omega)
      refine ⟨2 * held + 1, _, ?_, rfl, ?_⟩
      · rw [Ne, eq_mark_iff, place, shift, lastPoint]
        omega
      · rw [pointsOf, place, if_pos carrier, show (2 * held + 1) % 2 = 1 by omega,
          show (2 * held + 1) / 2 = held by omega, Nat.one_mul, Nat.add_sub_cancel]
    next proper =>
      rw [Bool.not_eq_true] at proper
      have place : (Char.ofNat code).toNat = code := by
        rw [← Bool.not_eq_true, isSurrogate_iff] at proper
        rw [lastPoint] at below
        exact toNat_ofNat (by omega)
      exact ⟨held, _, ofNat_ne_mark below proper, rfl, by rw [pointsOf, place, if_neg plain]⟩

/-! ## There and back -/

theorem pointsFrom_replicate (held more : Nat) (text : List Char) :
    pointsFrom held (List.replicate more mark ++ text) = pointsFrom (held + more) text := by
  induction more generalizing held with
  | zero => rfl
  | succ more ih =>
    rw [List.replicate_succ, List.cons_append, pointsFrom, if_pos rfl, ih]
    congr 1
    omega

theorem charsFrom_replicate (held more : Nat) (codes : List Nat) :
    charsFrom held (List.replicate more lastPoint ++ codes) = charsFrom (held + more) codes := by
  induction more generalizing held with
  | zero => rfl
  | succ more ih =>
    rw [List.replicate_succ, List.cons_append, charsFrom, if_pos rfl, ih]
    congr 1
    omega

/-- The code points of characters are held by these, with the marks in front of them. -/
theorem charsFrom_pointsFrom (held : Nat) (text : List Char) :
    charsFrom 0 (pointsFrom held text) = List.replicate held mark ++ text := by
  induction text generalizing held with
  | nil =>
    rw [pointsFrom, ← List.append_nil (List.replicate held lastPoint), charsFrom_replicate, Nat.zero_add, charsFrom,
      List.append_nil]
  | cons c rest ih =>
    by_cases marked : c = mark
    · rw [pointsFrom, if_pos marked, ih, List.replicate_succ', List.append_assoc, marked]
      rfl
    · obtain ⟨before, code, below, points, chars⟩ := exists_pointsOf held marked
      rw [pointsFrom, if_neg marked, points, List.append_assoc, charsFrom_replicate, Nat.zero_add,
        List.singleton_append, charsFrom, if_neg (Nat.ne_of_lt below), chars, ih 0, List.append_assoc]
      rfl

/-- Code points are those of the characters that hold them, behind those that wait in front. -/
theorem pointsFrom_charsFrom (held : Nat) (bounded : ∀ code ∈ codes, code ≤ lastPoint) :
    pointsFrom 0 (charsFrom held codes) = List.replicate held lastPoint ++ codes := by
  induction codes generalizing held with
  | nil =>
    rw [charsFrom, ← List.append_nil (List.replicate held mark), pointsFrom_replicate, Nat.zero_add, pointsFrom,
      List.append_nil]
  | cons code rest ih =>
    obtain ⟨bound, others⟩ := List.forall_mem_cons.mp bounded
    by_cases last : code = lastPoint
    · rw [charsFrom, if_pos last, ih _ others, List.replicate_succ', List.append_assoc, last]
      rfl
    · obtain ⟨before, c, other, chars, points⟩ := exists_charsOf held (Nat.lt_of_le_of_ne bound last)
      rw [charsFrom, if_neg last, chars, List.append_assoc, pointsFrom_replicate, Nat.zero_add, List.singleton_append,
        pointsFrom, if_neg other, points, ih 0 others, List.append_assoc]
      rfl

/-- Every string is the text of its code points. -/
theorem ofPoints_points (s : String) : ofPoints (points s) = s := by
  rw [ofPoints, points, charsFrom_pointsFrom]
  exact String.ofList_toList

/-- Code points make a text of just these code points. -/
theorem points_ofPoints (bounded : ∀ code ∈ codes, code ≤ lastPoint) : points (ofPoints codes) = codes := by
  rw [points, ofPoints, String.toList_ofList, pointsFrom_charsFrom 0 bounded]
  rfl

theorem le_of_mem_pointsOf (other : c ≠ mark) (member : n ∈ pointsOf held c) : n ≤ lastPoint := by
  obtain ⟨before, code, below, same, -⟩ := exists_pointsOf held other
  rw [same] at member
  rcases List.mem_append.mp member with old | new
  · exact Nat.le_of_eq (List.eq_of_mem_replicate old)
  · rw [List.mem_singleton.mp new]
    exact Nat.le_of_lt below

/-- All code points lie in the range of Unicode. -/
theorem le_of_mem_pointsFrom (member : n ∈ pointsFrom held text) : n ≤ lastPoint := by
  induction text generalizing held with
  | nil => exact Nat.le_of_eq (List.eq_of_mem_replicate member)
  | cons c rest ih =>
    rw [pointsFrom] at member
    split at member
    next => exact ih member
    next other =>
      rcases List.mem_append.mp member with here | there
      · exact le_of_mem_pointsOf other here
      · exact ih there

theorem le_of_mem_points (member : n ∈ points s) : n ≤ lastPoint := le_of_mem_pointsFrom member

/-! ## Texts without marks -/

theorem pointsOf_zero (c : Char) : pointsOf 0 c = [c.toNat] := by
  unfold pointsOf
  split <;> rfl

/-- Without marks every character stands for itself. -/
theorem pointsFrom_of_unmarked (unmarked : mark ∉ text) : pointsFrom 0 text = text.map (·.toNat) := by
  induction text with
  | nil => rfl
  | cons c rest ih =>
    rw [List.mem_cons, not_or] at unmarked
    rw [pointsFrom, if_neg (Ne.symm unmarked.1), pointsOf_zero, ih unmarked.2]
    rfl

/-- A string that is taken for a text as it is comes out as it was. -/
theorem plain_ofString (s : String) : plain (ofString s) = s := by
  have bounded : ∀ code ∈ s.toList.map (·.toNat), code ≤ lastPoint := List.forall_mem_map.mpr fun c _ => by
    have valid := valid_toNat c
    rw [lastPoint]
    omega
  rw [plain, ofString, points_ofPoints bounded, List.map_map]
  simp [Function.comp_def]

end SteinerTrees.Text
