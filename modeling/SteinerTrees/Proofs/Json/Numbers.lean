import SteinerTrees.Json.Printer
import SteinerTrees.Proofs.Decimal.Shortest

/-! # Numbers in files

Integers and floats are read back from their texts. The reader finds the decimal that was written up to zeros at its
end, and those do not change the nearest number. -/

namespace SteinerTrees.Json

open Decimal

variable {c : Char} {text run fraction rest : List Char} {n : Nat} {negative : Bool} {x : Binary64}

/-- What follows a value in a file: nothing, a comma or the end of a line. -/
def Closes (rest : List Char) : Prop := ∀ c ∈ rest.head?, c = ',' ∨ c = '\n'

theorem Closes.ends (closes : Closes rest) : Ends rest := by
  intro c first
  rcases closes c first with rfl | rfl <;> rfl

theorem Closes.readFraction (closes : Closes rest) : readFraction rest = none := by
  cases rest with
  | nil => rfl
  | cons c rest => rcases closes c rfl with rfl | rfl <;> rfl

theorem Closes.readExponent (closes : Closes rest) : readExponent rest = none := by
  cases rest with
  | nil => rfl
  | cons c rest => rcases closes c rfl with rfl | rfl <;> rfl

theorem ends_cons (other : c.isDigit = false) (rest : List Char) : Ends (c :: rest) := by
  rintro _ ⟨⟩
  exact other

/-! ## Parts of a number -/

theorem readFraction_append (digits : ∀ c ∈ run, c.isDigit = true) (nonempty : run ≠ []) (ends : Ends rest) :
    readFraction ('.' :: (run ++ rest)) = some (values run, rest) := by
  obtain ⟨first, others, rfl⟩ := List.exists_cons_of_ne_nil nonempty
  rw [readFraction, digits_append digits ends]
  rfl

theorem readExponent_append {sign : Char} (signed : Decimal.readSign (sign :: (run ++ rest)) = (negative, run ++ rest))
    (digits : ∀ c ∈ run, c.isDigit = true) (nonempty : run ≠ []) (ends : Ends rest) :
    readExponent ('e' :: sign :: (run ++ rest)) =
      some (if negative then -(ofDigits (values run) : Int) else ofDigits (values run), rest) := by
  obtain ⟨first, others, rfl⟩ := List.exists_cons_of_ne_nil nonempty
  rw [readExponent, if_pos (.inl rfl), signed]
  simp only
  rw [digits_append digits ends]
  rfl

/-! ## Integers -/

theorem readNumber_toDigits (negative : Bool) (short : width n ≤ digitLimit) (closes : Closes rest) :
    readNumber negative (Nat.toDigits 10 n ++ rest) = .ok (.int (if negative then -(n : Int) else n), rest) := by
  have length : (values (Nat.toDigits 10 n)).length = width n := List.length_map _
  have fits : ¬ digitLimit < width n := Nat.not_lt_of_le short
  simp [readNumber, (Whole.toDigits n).readWhole closes.ends, closes.readFraction, closes.readExponent, length, fits,
    ofDigits_toDigits]

/-! ## Decimals -/

/-- Digits around a point are read as the decimal that they stand for up to zeros at its end. -/
theorem readNumber_point {d : Decimal} (zeros : Nat) (whole : Whole run) (digits : ∀ c ∈ fraction, c.isDigit = true)
    (nonempty : fraction ≠ []) (value : ofDigits (values (run ++ fraction)) = d.digits * 10 ^ zeros)
    (place : (fraction.length : Int) = zeros - d.scale) (closes : Closes rest) :
    readNumber negative (run ++ '.' :: fraction ++ rest) = .ok (.float (d.nearest negative), rest) := by
  have length : (values fraction).length = fraction.length := List.length_map _
  have power : (0 : Int) - fraction.length = d.scale - zeros := by omega
  have value : ofDigits (values run ++ values fraction) = d.digits * 10 ^ zeros := by rw [← values_append, value]
  have near := nearest_shift negative d.digits zeros d.scale
  rw [List.append_assoc, List.cons_append]
  simp only [readNumber, whole.readWhole (ends_cons (by decide : '.'.isDigit = false) (fraction ++ rest)),
    readFraction_append digits nonempty closes.ends, closes.readExponent, Option.getD_some, Option.getD_none,
    Option.isNone_some, Bool.false_eq_true, false_and, if_false, length, power, value, near]

theorem isDigit_of_mem_zeros {k : Nat} (member : c ∈ List.replicate k '0') : c.isDigit = true := by
  rw [List.eq_of_mem_replicate member]
  rfl

/-- Digits of a number, cut or followed by zeros, can stand in front of a point. -/
theorem whole_take (nonzero : 0 < n) (taken zeros : Nat) :
    Whole ((Nat.toDigits 10 n).take (taken + 1) ++ List.replicate zeros '0') := by
  have head := head?_toDigits nonzero
  have digits := isDigit_of_mem (n := n)
  obtain ⟨first, others, same⟩ := List.exists_cons_of_ne_nil (Nat.toDigits_ne_nil (n := n) (b := 10))
  rw [same] at head digits ⊢
  refine ⟨fun c member => ?_, List.cons_ne_nil _ _, fun zero => absurd zero head⟩
  rcases List.mem_append.mp member with taken | zero
  · exact digits c (List.mem_of_mem_take taken)
  · exact isDigit_of_mem_zeros zero

theorem ofDigits_zeros_toDigits (zeros n : Nat) :
    ofDigits (values (List.replicate zeros '0' ++ Nat.toDigits 10 n)) = n := by
  rw [values_append, values_zeros, ofDigits_zeros_append, ofDigits_toDigits]

theorem ofDigits_toDigits_zeros (n zeros : Nat) :
    ofDigits (values (Nat.toDigits 10 n ++ List.replicate zeros '0')) = n * 10 ^ zeros := by
  have none : ofDigits (List.replicate zeros 0) = 0 := by
    have same := ofDigits_zeros_append zeros []
    rwa [List.append_nil] at same
  rw [values_append, values_zeros, ofDigits_append, ofDigits_toDigits, none, List.length_replicate, Nat.add_zero]

theorem readNumber_positional {d : Decimal} (nonzero : 0 < d.digits) (closes : Closes rest) :
    readNumber negative (positional (Nat.toDigits 10 d.digits) (d.scale + width d.digits - 1) ++ rest) =
      .ok (.float (d.nearest negative), rest) := by
  have all_digits := isDigit_of_mem (n := d.digits)
  have some_digits := Nat.toDigits_ne_nil (n := d.digits) (b := 10)
  have length : (Nat.toDigits 10 d.digits).length = width d.digits := rfl
  unfold positional
  generalize leading_eq : d.scale + width d.digits - 1 = leading
  split
  next below =>
    -- all digits stand behind the point, and zeros in front of them
    have shape : "0.".toList ++ List.replicate (-leading - 1).toNat '0' ++ Nat.toDigits 10 d.digits =
        ['0'] ++ '.' :: (List.replicate (-leading - 1).toNat '0' ++ Nat.toDigits 10 d.digits) := by
      rw [List.append_assoc]
      rfl
    have behind : ∀ c ∈ List.replicate (-leading - 1).toNat '0' ++ Nat.toDigits 10 d.digits, c.isDigit = true :=
      fun c member => (List.mem_append.mp member).elim isDigit_of_mem_zeros (all_digits c)
    have value := ofDigits_zeros_toDigits ((-leading - 1).toNat + 1) d.digits
    rw [shape]
    refine readNumber_point 0 (Whole.toDigits 0) behind (List.append_ne_nil_of_right_ne_nil _ some_digits) ?_ ?_ closes
    · rw [Nat.pow_zero, Nat.mul_one]
      exact value
    · rw [List.length_append, List.length_replicate, length]
      omega
  next above =>
    rcases Nat.lt_or_ge (leading.toNat + 1) (width d.digits) with cut | short
    · -- the point stands between two digits
      have none : leading.toNat + 1 - ((Nat.toDigits 10 d.digits).take (leading.toNat + 1)).length = 0 := by
        rw [List.length_take, length]
        omega
      have rest_digits : (Nat.toDigits 10 d.digits).drop (leading.toNat + 1) ≠ [] := by
        rw [Ne, List.drop_eq_nil_iff, length]
        omega
      have whole := whole_take nonzero leading.toNat 0
      simp only [none, List.replicate_zero, List.append_nil, List.isEmpty_iff, rest_digits, if_false] at whole ⊢
      refine readNumber_point 0 whole (fun c member => all_digits c (List.mem_of_mem_drop member)) rest_digits
        ?_ ?_ closes
      · rw [List.take_append_drop, ofDigits_toDigits, Nat.pow_zero, Nat.mul_one]
      · rw [List.length_drop, length]
        omega
    · -- zeros stand between the last digit and the point
      have all : (Nat.toDigits 10 d.digits).take (leading.toNat + 1) = Nat.toDigits 10 d.digits :=
        List.take_of_length_le short
      have no_rest : (Nat.toDigits 10 d.digits).drop (leading.toNat + 1) = [] := List.drop_eq_nil_of_le short
      have whole := whole_take nonzero leading.toNat (leading.toNat + 1 - width d.digits)
      have zero : (['0'] : List Char) = List.replicate 1 '0' := rfl
      simp only [all, no_rest, length, List.isEmpty_nil, if_true] at whole ⊢
      refine readNumber_point (leading.toNat + 1 - width d.digits + 1) whole (fun _ => isDigit_of_mem_zeros (k := 1))
        (List.cons_ne_nil _ _) ?_ ?_ closes
      · rw [zero, List.append_assoc, List.replicate_append_replicate, ofDigits_toDigits_zeros]
      · rw [List.length_singleton]
        omega

/-- The exponent of a text is read back. -/
theorem readExponent_scientific (leading : Int) (closes : Closes rest) :
    readExponent ('e' :: (if leading < 0 then '-' else '+') ::
      ((if (Nat.toDigits 10 leading.natAbs).length < 2 then ['0'] else []) ++ Nat.toDigits 10 leading.natAbs ++ rest)) =
      some (leading, rest) := by
  obtain ⟨zeros, padding⟩ : ∃ zeros, (if (Nat.toDigits 10 leading.natAbs).length < 2 then ['0'] else []) =
      List.replicate zeros '0' := by
    split
    · exact ⟨1, rfl⟩
    · exact ⟨0, rfl⟩
  have digits : ∀ c ∈ List.replicate zeros '0' ++ Nat.toDigits 10 leading.natAbs, c.isDigit = true :=
    fun c member => (List.mem_append.mp member).elim isDigit_of_mem_zeros (isDigit_of_mem c)
  have nonempty : List.replicate zeros '0' ++ Nat.toDigits 10 leading.natAbs ≠ [] :=
    List.append_ne_nil_of_right_ne_nil _ Nat.toDigits_ne_nil
  rw [padding]
  split
  next below =>
    rw [readExponent_append rfl digits nonempty closes.ends, ofDigits_zeros_toDigits, if_pos rfl]
    congr 2
    omega
  next above =>
    rw [readExponent_append rfl digits nonempty closes.ends, ofDigits_zeros_toDigits, if_neg (by decide)]
    congr 2
    omega

theorem readNumber_scientific {d : Decimal} (closes : Closes rest) :
    readNumber negative (scientific (Nat.toDigits 10 d.digits) (d.scale + width d.digits - 1) ++ rest) =
      .ok (.float (d.nearest negative), rest) := by
  have all_digits := isDigit_of_mem (n := d.digits)
  have value := ofDigits_toDigits d.digits
  have length : (Nat.toDigits 10 d.digits).length = width d.digits := rfl
  generalize leading_eq : d.scale + width d.digits - 1 = leading
  have power := readExponent_scientific leading closes
  unfold scientific
  simp only
  generalize (if leading < 0 then '-' else '+') = sign at power ⊢
  generalize (if (Nat.toDigits 10 leading.natAbs).length < 2 then ['0'] else []) ++ Nat.toDigits 10 leading.natAbs =
    exponent at power ⊢
  obtain ⟨first, others, same⟩ := List.exists_cons_of_ne_nil (Nat.toDigits_ne_nil (n := d.digits) (b := 10))
  rw [same] at all_digits value length ⊢
  have whole : Whole [first] :=
    ⟨fun c member => all_digits c (List.mem_cons.mpr (.inl (List.mem_singleton.mp member))), List.cons_ne_nil _ _,
      fun zero => by rw [List.head?_singleton, Option.some.injEq] at zero; rw [zero]⟩
  have start (rest : List Char) (ends : Ends rest) : readWhole (first :: rest) = some (values [first], rest) :=
    whole.readWhole ends
  rw [List.length_cons] at length
  cases others with
  | nil =>
    have scale : leading = d.scale := by
      rw [List.length_nil] at length
      omega
    have no_fraction : readFraction ('e' :: sign :: (exponent ++ rest)) = none := rfl
    simp only [List.cons_append, List.nil_append, readNumber,
      start ('e' :: sign :: (exponent ++ rest)) (ends_cons (by decide) _), no_fraction, power, Option.getD_some,
      Option.getD_none, Option.isNone_none, Option.isNone_some, Bool.false_eq_true, and_false, if_false,
      List.append_nil, value, scale, List.length_nil, Int.natCast_zero, Int.sub_zero]
  | cons second others =>
    have behind : ∀ c ∈ second :: others, c.isDigit = true := fun c member =>
      all_digits c (List.mem_cons_of_mem _ member)
    have scale : leading - (values (second :: others)).length = d.scale := by
      rw [values, List.length_map]
      omega
    have value : ofDigits (values [first] ++ values (second :: others)) = d.digits := value
    have fraction : readFraction ('.' :: second :: (others ++ 'e' :: sign :: (exponent ++ rest))) =
        some (values (second :: others), 'e' :: sign :: (exponent ++ rest)) :=
      readFraction_append behind (List.cons_ne_nil _ _) (ends_cons (by decide) _)
    simp only [List.cons_append, List.append_assoc, readNumber,
      start ('.' :: second :: (others ++ 'e' :: sign :: (exponent ++ rest))) (ends_cons (by decide) _), fraction, power,
      Option.getD_some, Option.isNone_some, Bool.false_eq_true, and_false, if_false, value, scale]

/-- A decimal is read back as the number that is nearest to it. -/
theorem readNumber_render (negative : Bool) (d : Decimal) (closes : Closes rest) :
    readNumber negative (d.render ++ rest) = .ok (.float (d.nearest negative), rest) := by
  rw [← nearest_normalize 400]
  unfold render
  generalize d.normalize 400 = d
  simp only
  split_ifs with zero
  · have shape : "0.0".toList = Nat.toDigits 10 0 ++ '.' :: ['0'] := by decide
    have same : d.nearest negative = nearest negative ⟨0, -1⟩ := by
      obtain ⟨digits, scale⟩ := d
      cases zero
      rw [nearest_zero, nearest_zero]
    rw [shape, same]
    exact readNumber_point 0 (Whole.toDigits 0) (fun _ => isDigit_of_mem_zeros (k := 1)) (List.cons_ne_nil _ _) rfl rfl
      closes
  · exact readNumber_positional (Nat.pos_of_ne_zero zero) closes
  · exact readNumber_scientific closes

/-! ## Scalars -/

theorem readScalar_of_digit (digit : c.isDigit = true) : readScalar (c :: text) = readNumber false (c :: text) := by
  rw [readScalar.eq_def]
  split
  case h_9 => rfl
  all_goals
    rename_i same
    cases same
    exact absurd digit (by decide)

theorem readScalar_minus (digit : c.isDigit = true) : readScalar ('-' :: c :: text) = readNumber true (c :: text) := by
  refine readScalar.eq_8 (c :: text) fun rest same => ?_
  cases same
  exact absurd digit (by decide)

theorem exists_cons_of_digits (digits : ∀ c ∈ run, c.isDigit = true) (nonempty : run ≠ []) :
    ∃ c text, run = c :: text ∧ c.isDigit = true := by
  obtain ⟨c, text, rfl⟩ := List.exists_cons_of_ne_nil nonempty
  exact ⟨c, text, rfl, digits c List.mem_cons_self⟩

/-- The text of an integer is its digits, behind a minus if it is negative. -/
theorem toList_toString_int (n : Int) :
    (toString n).toList = (if n < 0 then ['-'] else []) ++ Nat.toDigits 10 n.natAbs := by
  cases n with
  | ofNat n => exact Nat.toList_repr
  | negSucc n =>
    rw [Int.toString_eq_repr, Int.repr, String.toList_append, Nat.toList_repr, if_pos (Int.negSucc_lt_zero n)]
    rfl

/-- An integer of not too many digits is read back. -/
theorem readScalar_int {n : Int} (short : width n.natAbs ≤ digitLimit) (closes : Closes rest) :
    readScalar ((toString n).toList ++ rest) = .ok (.int n, rest) := by
  obtain ⟨c, text, same, digit⟩ := exists_cons_of_digits (isDigit_of_mem (n := n.natAbs)) Nat.toDigits_ne_nil
  have read (negative : Bool) := readNumber_toDigits negative short closes
  rw [same] at read
  rw [toList_toString_int, same]
  split
  next below =>
    have value : (-(n.natAbs : Int)) = n := by omega
    exact (readScalar_minus digit).trans ((read true).trans (by rw [if_pos rfl, value]))
  next above =>
    have value : (n.natAbs : Int) = n := by omega
    exact (readScalar_of_digit digit).trans ((read false).trans (by rw [if_neg (by decide), value]))

/-- The text of a decimal starts with a digit. -/
theorem exists_render_eq_cons (d : Decimal) : ∃ c text, d.render = c :: text ∧ c.isDigit = true := by
  unfold render
  generalize d.normalize 400 = d
  obtain ⟨c, text, same, digit⟩ := exists_cons_of_digits (isDigit_of_mem (n := d.digits)) Nat.toDigits_ne_nil
  simp only [same]
  split_ifs
  · exact ⟨'0', _, rfl, rfl⟩
  · unfold positional
    split
    · exact ⟨'0', _, rfl, rfl⟩
    · exact ⟨c, _, rfl, digit⟩
  · unfold scientific
    cases text with
    | nil => exact ⟨c, _, rfl, digit⟩
    | cons second text => exact ⟨c, _, rfl, digit⟩

theorem readScalar_infinity (negative : Bool) (rest : List Char) :
    readScalar (((Binary64.infinity negative).render "Infinity" "NaN").toList ++ rest) =
      .ok (.float (.infinity negative), rest) := by
  cases negative <;> rfl

/-- A float is read back, if it is the only one of those that are no number. -/
theorem readScalar_float (canonical : x.isNaN = true → x = .nan) (closes : Closes rest) :
    readScalar ((x.render "Infinity" "NaN").toList ++ rest) = .ok (.float x, rest) := by
  by_cases unordered : x.isNaN = true
  · rw [canonical unordered]
    rfl
  by_cases unbounded : x.isInfinite = true
  · rw [Binary64.eq_infinity unbounded]
    exact readScalar_infinity x.negative rest
  · have finite := Binary64.isFinite_of_not unordered unbounded
    obtain ⟨c, text, same, digit⟩ := exists_render_eq_cons (shortest x)
    have read := readNumber_render x.negative (shortest x) closes
    rw [nearest_shortest finite, same] at read
    rw [Binary64.render, if_neg unordered, if_neg unbounded, same]
    cases sign : x.negative with
    | false =>
      rw [sign] at read
      rw [if_neg (by decide), String.toList_ofList, List.cons_append, readScalar_of_digit digit]
      exact read
    | true =>
      rw [sign] at read
      rw [if_pos rfl, String.toList_append, String.toList_ofList, String.toList_ofList]
      exact (readScalar_minus digit).trans read

theorem toList_render_ne_nil (x : Binary64) : (x.render "Infinity" "NaN").toList ≠ [] := by
  obtain ⟨c, text, same, -⟩ := exists_render_eq_cons (shortest x)
  unfold Binary64.render
  rw [same]
  split_ifs <;> simp

/-! ## Characters -/

/-- A character that is neither a blank nor a bracket. -/
def isPlain (c : Char) : Bool := !isSpace c && c != '[' && c != ']' && c != '\x7b' && c != '\x7d'

def Plain (text : List Char) : Prop := ∀ c ∈ text, isPlain c = true

theorem plain_of_all (plain : text.all isPlain = true) : Plain text := List.all_eq_true.mp plain

theorem Plain.append (plain : Plain text) (more : Plain rest) : Plain (text ++ rest) :=
  List.forall_mem_append.mpr ⟨plain, more⟩

theorem Plain.cons (first : isPlain c = true) (more : Plain rest) : Plain (c :: rest) :=
  List.forall_mem_cons.mpr ⟨first, more⟩

theorem isPlain_of_isDigit (digit : c.isDigit = true) : isPlain c = true := by
  have other {d : Char} (no_digit : d.isDigit = false) : c ≠ d := by
    rintro rfl
    rw [digit] at no_digit
    cases no_digit
  simp only [isPlain, isSpace, Bool.and_eq_true, Bool.not_eq_true', Bool.or_eq_false_iff, decide_eq_false_iff_not,
    bne_iff_ne]
  exact ⟨⟨⟨⟨⟨⟨⟨other rfl, other rfl⟩, other rfl⟩, other rfl⟩, other rfl⟩, other rfl⟩, other rfl⟩, other rfl⟩

theorem plain_digits (n : Nat) : Plain (Nat.toDigits 10 n) :=
  fun c member => isPlain_of_isDigit (isDigit_of_mem c member)

theorem plain_zeros (zeros : Nat) : Plain (List.replicate zeros '0') :=
  fun _ member => isPlain_of_isDigit (isDigit_of_mem_zeros member)

theorem plain_positional {digits : List Char} (plain : Plain digits) (leading : Int) :
    Plain (positional digits leading) := by
  have whole : Plain (digits.take (leading.toNat + 1)) := fun c member => plain c (List.mem_of_mem_take member)
  have part : Plain (if (digits.drop (leading.toNat + 1)).isEmpty then ['0'] else digits.drop (leading.toNat + 1)) := by
    split
    · exact plain_zeros 1
    · exact fun c member => plain c (List.mem_of_mem_drop member)
  unfold positional
  split
  · exact ((plain_of_all rfl).append (plain_zeros _)).append plain
  · exact (whole.append (plain_zeros _)).append (part.cons rfl)

theorem plain_scientific {digits : List Char} (plain : Plain digits) (leading : Int) :
    Plain (scientific digits leading) := by
  have padding : Plain (if (Nat.toDigits 10 leading.natAbs).length < 2 then ['0'] else []) := by
    split <;> exact plain_of_all rfl
  have sign : isPlain (if leading < 0 then '-' else '+') = true := by
    split <;> rfl
  have exponent := ((padding.append (plain_digits leading.natAbs)).cons sign).cons (c := 'e') rfl
  unfold scientific
  split
  · obtain ⟨first, others⟩ := List.forall_mem_cons.mp plain
    exact ((Plain.cons rfl others).cons first).append exponent
  · exact plain.append exponent

theorem plain_render (d : Decimal) : Plain d.render := by
  unfold render
  simp only
  split_ifs
  · exact plain_of_all rfl
  · exact plain_positional (plain_digits _) _
  · exact plain_scientific (plain_digits _) _

theorem plain_int (n : Int) : Plain (toString n).toList := by
  rw [toList_toString_int]
  refine Plain.append ?_ (plain_digits _)
  split <;> exact plain_of_all rfl

theorem plain_float (x : Binary64) : Plain (x.render "Infinity" "NaN").toList := by
  have magnitude : Plain (if x.isInfinite then "Infinity" else String.ofList (shortest x).render).toList := by
    split
    · exact plain_of_all rfl
    · rw [String.toList_ofList]
      exact plain_render _
  unfold Binary64.render
  simp only
  generalize (if x.isInfinite then "Infinity" else String.ofList (shortest x).render) = text at magnitude ⊢
  split_ifs
  · exact plain_of_all rfl
  · rw [String.toList_append]
    exact (plain_of_all rfl).append magnitude
  · exact magnitude

end SteinerTrees.Json
