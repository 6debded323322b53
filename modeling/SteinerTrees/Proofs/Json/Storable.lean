import Mathlib.Data.ENat.Basic
import SteinerTrees.Proofs.Json.Numbers
import SteinerTrees.Proofs.Json.Texts
import SteinerTrees.Proofs.Value.Limits

/-! # What a file can hold

Everything that is read has a form of its own: no tuples, no text with a split pair, integers of not too many digits,
one float that is no number, dictionaries with each name once. No collection in it has more members than the text that
was read has characters. -/

namespace SteinerTrees

namespace Decimal

variable {negative : Bool}

theorem ofDigits_lt {a : List Nat} (digits : ∀ d ∈ a, d < 10) : ofDigits a < 10 ^ a.length := by
  induction a using List.reverseRecOn with
  | nil => exact Nat.one_pos
  | append_singleton a d ih =>
    have front := ih fun d member => digits d (List.mem_append_left _ member)
    have last := digits d (List.mem_append_right _ List.mem_cons_self)
    rw [ofDigits_append_singleton, List.length_append, List.length_singleton, Nat.pow_succ]
    omega

theorem isNaN_ofCode (code : Nat) : (Binary64.ofCode negative code).isNaN = false := by
  unfold Binary64.ofCode
  split
  next below =>
    have field : code / Binary64.fractionLimit < 2047 := Nat.div_lt_of_lt_mul (by rwa [Nat.mul_comm])
    have small : code / Binary64.fractionLimit % 2048 = code / Binary64.fractionLimit := Nat.mod_eq_of_lt (by omega)
    have other : ((Fin.ofNat 2048 (code / Binary64.fractionLimit)).val == Binary64.reserved) = false := by
      rw [Fin.val_ofNat, small, beq_eq_false_iff_ne]
      exact field.ne
    rw [Binary64.isNaN, other, Bool.false_and]
  next => rfl

theorem isNaN_nearest (d : Decimal) : (d.nearest negative).isNaN = false := by
  have bounded : (Binary64.infinity negative).isNaN = false := rfl
  unfold nearest Binary64.ofDecimal Binary64.ofRatio
  split_ifs
  · exact isNaN_ofCode _
  · exact bounded
  · exact isNaN_ofCode _
  · exact isNaN_ofCode _

end Decimal

namespace Json

variable {limit more : ℕ∞} {c : Char} {text rest : List Char} {value : Value} {negative : Bool}

/-- A value that a file can hold, with at most `limit` members in every collection. -/
inductive Storable (limit : ℕ∞) : Value → Prop
  | null : Storable limit .null
  | bool (b : Bool) : Storable limit (.bool b)
  | int {n : Int} (short : Decimal.width n.natAbs ≤ Decimal.digitLimit) : Storable limit (.int n)
  | float {x : Binary64} (canonical : x.isNaN = true → x = .nan) : Storable limit (.float x)
  | text {s : String} (joined : Joined (Text.points s)) (few : (Text.points s).length ≤ limit) :
    Storable limit (.text s)
  | list {items : List Value} (inside : ∀ item ∈ items, Storable limit item) (few : items.length ≤ limit) :
    Storable limit (.list items)
  | dict {entries : List (String × Value)} (inside : ∀ entry ∈ entries, Storable limit entry.2)
    (joined : ∀ entry ∈ entries, Joined (Text.points entry.1)) (distinct : (entries.map (·.1)).Nodup)
    (few : entries.length ≤ limit) : Storable limit (.dict entries)

theorem Storable.mono (storable : Storable limit value) (le : limit ≤ more) : Storable more value := by
  induction storable with
  | null => exact .null
  | bool b => exact .bool b
  | int short => exact .int short
  | float canonical => exact .float canonical
  | text joined few => exact .text joined (few.trans le)
  | list _ few ih => exact .list ih (few.trans le)
  | dict _ joined distinct few ih => exact .dict ih joined distinct (few.trans le)

/-- What a file can hold can be written. -/
theorem Storable.isWritable (storable : Storable limit value) : value.isWritable = true := by
  induction storable with
  | int short =>
    rw [Value.isWritable]
    exact decide_eq_true short
  | list _ _ ih => exact Value.isWritable_list_iff.mpr ih
  | dict _ _ _ _ ih => exact Value.isWritable_dict_iff.mpr ih
  | _ => simp only [Value.isWritable]

/-! ## Numbers -/

theorem value_lt (digit : c.isDigit = true) : c.toNat - 48 < 10 := by
  have bounds : 48 ≤ c.toNat ∧ c.toNat ≤ 57 := by simpa [Char.isDigit, UInt32.le_iff_toNat_le] using digit
  omega

theorem digits_spec (text : List Char) :
    (∀ d ∈ (digits text).1, d < 10) ∧ (digits text).1.length + (digits text).2.length = text.length := by
  unfold digits
  constructor
  · intro d member
    obtain ⟨c, taken, rfl⟩ := List.mem_map.mp member
    exact value_lt (List.mem_takeWhile_imp taken)
  · have taken := (List.takeWhile_prefix (p := Char.isDigit) (l := text)).length_le
    rw [List.length_map, List.length_drop]
    omega

theorem readWhole_spec {whole : List Nat} (read : readWhole text = some (whole, rest)) :
    (∀ d ∈ whole, d < 10) ∧ rest.length < text.length := by
  unfold readWhole at read
  split at read
  · cases read
    exact ⟨by simp, by simp⟩
  · obtain ⟨small, total⟩ := digits_spec text
    split at read
    next => cases read
    next nonempty =>
      rw [Option.some.injEq] at read
      simp only [read] at small total nonempty
      have positive : 0 < whole.length := List.length_pos_of_ne_nil fun none => nonempty rest (by rw [none])
      exact ⟨small, by omega⟩

theorem readFraction_le {part : List Nat} (read : readFraction text = some (part, rest)) :
    rest.length ≤ text.length := by
  unfold readFraction at read
  split at read
  next behind =>
    have total := (digits_spec behind).2
    split at read
    next => cases read
    next =>
      rw [Option.some.injEq] at read
      simp only [read] at total
      rw [List.length_cons]
      omega
  next => cases read

theorem readSign_le (text : List Char) : (Decimal.readSign text).2.length ≤ text.length := by
  unfold Decimal.readSign
  split <;> simp

theorem readExponent_le {power : Int} (read : readExponent text = some (power, rest)) :
    rest.length ≤ text.length := by
  unfold readExponent at read
  split at read
  next mark behind =>
    split at read
    · have signed := readSign_le behind
      have total := (digits_spec (Decimal.readSign behind).2).2
      simp only at read
      split at read
      next => cases read
      next found after _ same =>
        rw [Option.some.injEq, Prod.mk.injEq] at read
        simp only [same, read.2] at total
        rw [List.length_cons]
        omega
    · cases read
  next => cases read

theorem readNumber_spec (read : readNumber negative text = .ok (value, rest)) :
    Storable limit value ∧ rest.length < text.length := by
  unfold readNumber at read
  split at read
  next => cases read
  next whole behind found =>
    obtain ⟨small, shorter⟩ := readWhole_spec found
    have fraction : ((readFraction behind).getD ([], behind)).2.length ≤ behind.length := by
      cases part : readFraction behind with
      | none => exact le_refl _
      | some => exact readFraction_le part
    have exponent (text : List Char) : ((readExponent text).getD (0, text)).2.length ≤ text.length := by
      cases power : readExponent text with
      | none => exact le_refl _
      | some => exact readExponent_le power
    have after := exponent ((readFraction behind).getD ([], behind)).2
    simp only at read
    split at read
    next =>
      split at read
      next => cases read
      next fits =>
        cases read
        refine ⟨.int ?_, by omega⟩
        have size : (if negative then -(Decimal.ofDigits whole : Int) else Decimal.ofDigits whole).natAbs =
            Decimal.ofDigits whole := by
          cases negative <;> simp
        rw [size, Decimal.width_le_iff (by decide)]
        exact (Decimal.ofDigits_lt small).trans_le (Nat.pow_le_pow_right (by decide) (Nat.le_of_not_lt fits))
    next =>
      cases read
      refine ⟨.float fun unordered => ?_, by omega⟩
      rw [Decimal.isNaN_nearest] at unordered
      cases unordered

/-! ## Scalars -/

theorem readScalar_spec (read : readScalar text = .ok (value, rest)) (fits : text.length ≤ limit) :
    Storable limit value ∧ rest.length < text.length := by
  unfold readScalar at read
  split at read
  case h_1 behind =>
    cases found : readText behind with
    | error failure =>
      rw [found] at read
      cases read
    | ok pair =>
      obtain ⟨s, after⟩ := pair
      rw [found] at read
      cases read
      obtain ⟨joined, shorter⟩ := readText_spec found
      have few : (Text.points s).length ≤ ('"' :: behind).length := by
        rw [List.length_cons]
        omega
      refine ⟨.text joined ((Nat.cast_le.mpr few).trans fits), ?_⟩
      rw [List.length_cons]
      omega
  case h_8 =>
    obtain ⟨storable, shorter⟩ := readNumber_spec read
    exact ⟨storable, Nat.lt_succ_of_lt shorter⟩
  case h_9 => exact readNumber_spec read
  all_goals
    cases read
    refine ⟨?_, by simp only [List.length_cons]; omega⟩
  · exact .null
  · exact .bool true
  · exact .bool false
  · exact .float fun _ => rfl
  · exact .float fun unordered => absurd unordered (by decide)
  · exact .float fun unordered => absurd unordered (by decide)

/-! ## Dictionaries -/

variable {α : Type} {name : String} {a : α} {entries kept : List (String × α)}

theorem forall_mem_setEntry {p : String × α → Prop} (new : p (name, a)) (old : ∀ entry ∈ entries, p entry) :
    ∀ entry ∈ Value.setEntry name a entries, p entry := by
  induction entries with
  | nil => exact List.forall_mem_singleton.mpr new
  | cons first entries ih =>
    obtain ⟨here, others⟩ := List.forall_mem_cons.mp old
    rw [Value.setEntry]
    split
    · exact List.forall_mem_cons.mpr ⟨new, others⟩
    · exact List.forall_mem_cons.mpr ⟨here, ih others⟩

/-- An entry takes the place of the one with its name. -/
theorem map_fst_setEntry (taken : name ∈ entries.map (·.1)) :
    (Value.setEntry name a entries).map (·.1) = entries.map (·.1) := by
  induction entries with
  | nil => cases taken
  | cons first entries ih =>
    rw [Value.setEntry]
    split
    next same => rw [List.map_cons, List.map_cons, same]
    next other =>
      rcases List.mem_cons.mp taken with same | taken
      · exact absurd same.symm other
      · rw [List.map_cons, List.map_cons, ih taken]

/-- An entry under a new name goes to the end. -/
theorem setEntry_of_fresh (fresh : name ∉ entries.map (·.1)) :
    Value.setEntry name a entries = entries ++ [(name, a)] := by
  induction entries with
  | nil => rfl
  | cons first entries ih =>
    rw [List.map_cons, List.mem_cons, not_or] at fresh
    rw [Value.setEntry, if_neg (Ne.symm fresh.1), ih fresh.2, List.cons_append]

theorem nodup_setEntry (distinct : (entries.map (·.1)).Nodup) : ((Value.setEntry name a entries).map (·.1)).Nodup := by
  by_cases taken : name ∈ entries.map (·.1)
  · rwa [map_fst_setEntry taken]
  · rw [setEntry_of_fresh taken, List.map_append]
    exact List.Nodup.append distinct (List.nodup_singleton _) (List.disjoint_singleton.mpr taken)

theorem length_setEntry_le (name : String) (a : α) (entries : List (String × α)) :
    (Value.setEntry name a entries).length ≤ entries.length + 1 := by
  by_cases taken : name ∈ entries.map (·.1)
  · have same := congrArg List.length (map_fst_setEntry (a := a) taken)
    rw [List.length_map, List.length_map] at same
    omega
  · rw [setEntry_of_fresh taken, List.length_append, List.length_singleton]

/-- Entries that make a dictionary a file can hold, up to a number of them. -/
structure Kept (limit : ℕ∞) (size : Nat) (entries : List (String × Value)) : Prop where
  inside : ∀ entry ∈ entries, Storable limit entry.2
  joined : ∀ entry ∈ entries, Joined (Text.points entry.1)
  distinct : (entries.map (·.1)).Nodup
  few : entries.length ≤ size

theorem Kept.setEntry {size : Nat} {entries : List (String × Value)} (kept : Kept limit size entries)
    (storable : Storable limit value) (joined : Joined (Text.points name)) :
    Kept limit (size + 1) (Value.setEntry name value entries) where
  inside := forall_mem_setEntry storable kept.inside
  joined := forall_mem_setEntry joined kept.joined
  distinct := nodup_setEntry kept.distinct
  few := (length_setEntry_le name value entries).trans (Nat.succ_le_succ kept.few)

theorem Kept.foldl {size : Nat} {entries old : List (String × Value)} (kept : Kept limit size old)
    (inside : ∀ entry ∈ entries, Storable limit entry.2) (joined : ∀ entry ∈ entries, Joined (Text.points entry.1)) :
    Kept limit (size + entries.length)
      (entries.foldl (fun kept (name, value) => Value.setEntry name value kept) old) := by
  induction entries generalizing size old with
  | nil => exact kept
  | cons entry entries ih =>
    obtain ⟨storable, inside⟩ := List.forall_mem_cons.mp inside
    obtain ⟨whole, joined⟩ := List.forall_mem_cons.mp joined
    have rest := ih (kept.setEntry storable whole) inside joined
    rwa [Nat.add_assoc, Nat.add_comm 1] at rest

/-- A dictionary from entries has each name once, and no more entries than those. -/
theorem storable_dictOfEntries {entries : List (String × Value)} (inside : ∀ entry ∈ entries, Storable limit entry.2)
    (joined : ∀ entry ∈ entries, Joined (Text.points entry.1)) (few : entries.length ≤ limit) :
    Storable limit (Value.dictOfEntries entries) := by
  have none : Kept limit 0 [] := ⟨by simp, by simp, List.nodup_nil, le_refl _⟩
  have kept := none.foldl inside joined
  rw [Nat.zero_add] at kept
  exact .dict kept.inside kept.joined kept.distinct ((Nat.cast_le.mpr kept.few).trans few)

/-! ## Values -/

theorem skip_le (text : List Char) : (skip text).length ≤ text.length := (List.dropWhile_suffix isSpace).length_le

/-- What reading with some fuel comes to. Each member takes up at least one character. -/
structure Sound (limit : ℕ∞) (fuel : Nat) : Prop where
  value {text rest : List Char} {value : Value} : readValue fuel text = .ok (value, rest) → text.length ≤ limit →
    Storable limit value ∧ rest.length < text.length
  items {text rest : List Char} {items : List Value} : readItems fuel text = .ok (items, rest) → text.length ≤ limit →
    (∀ item ∈ items, Storable limit item) ∧ items.length + rest.length < text.length
  entries {text rest : List Char} {entries : List (String × Value)} : readEntries fuel text = .ok (entries, rest) →
    text.length ≤ limit → (∀ entry ∈ entries, Storable limit entry.2 ∧ Joined (Text.points entry.1)) ∧
    entries.length + rest.length < text.length

variable {fuel : Nat}

theorem fits_of_le {m n : Nat} (le : m ≤ n) (fits : (n : ℕ∞) ≤ limit) : (m : ℕ∞) ≤ limit :=
  (Nat.cast_le.mpr le).trans fits

theorem Sound.value_succ (sound : Sound limit fuel) (read : readValue (fuel + 1) text = .ok (value, rest))
    (fits : text.length ≤ limit) : Storable limit value ∧ rest.length < text.length := by
  unfold readValue at read
  split at read
  next fuel behind same =>
    cases same
    have shorter := skip_le behind
    split at read
    next after bracket =>
      cases read
      rw [bracket, List.length_cons] at shorter
      refine ⟨.list (by simp) (by simp), ?_⟩
      rw [List.length_cons]
      omega
    next =>
      cases found : readItems fuel (skip behind) with
      | error failure =>
        rw [found] at read
        cases read
      | ok pair =>
        rw [found] at read
        cases read
        rw [List.length_cons] at fits ⊢
        obtain ⟨inside, fewer⟩ := sound.items found (fits_of_le (by omega) fits)
        exact ⟨.list inside (fits_of_le (by omega) fits), by omega⟩
  next fuel behind same =>
    cases same
    have shorter := skip_le behind
    split at read
    next after brace =>
      cases read
      rw [brace, List.length_cons] at shorter
      refine ⟨.dict (by simp) (by simp) List.nodup_nil (by simp), ?_⟩
      rw [List.length_cons]
      omega
    next =>
      cases found : readEntries fuel (skip behind) with
      | error failure =>
        rw [found] at read
        cases read
      | ok pair =>
        rw [found] at read
        cases read
        rw [List.length_cons] at fits ⊢
        obtain ⟨inside, fewer⟩ := sound.entries found (fits_of_le (by omega) fits)
        exact ⟨storable_dictOfEntries (fun entry member => (inside entry member).1)
          (fun entry member => (inside entry member).2) (fits_of_le (by omega) fits), by omega⟩
  next => exact readScalar_spec read fits
  next same => cases same

theorem Sound.items_succ {items : List Value} (sound : Sound limit fuel)
    (read : readItems (fuel + 1) text = .ok (items, rest)) (fits : text.length ≤ limit) :
    (∀ item ∈ items, Storable limit item) ∧ items.length + rest.length < text.length := by
  rw [readItems] at read
  obtain ⟨⟨item, behind⟩, first, read⟩ := bind_eq_ok_iff.mp read
  obtain ⟨storable, shorter⟩ := sound.value first fits
  have skipped := skip_le behind
  simp only at read
  split at read
  next after comma =>
    obtain ⟨⟨others, rest⟩, found, read⟩ := bind_eq_ok_iff.mp read
    cases read
    have again := skip_le after
    rw [comma, List.length_cons] at skipped
    obtain ⟨inside, fewer⟩ := sound.items found (fits_of_le (by omega) fits)
    refine ⟨List.forall_mem_cons.mpr ⟨storable, inside⟩, ?_⟩
    simp only [List.length_cons]
    omega
  next after bracket =>
    cases read
    rw [bracket, List.length_cons] at skipped
    refine ⟨List.forall_mem_singleton.mpr storable, ?_⟩
    rw [List.length_singleton]
    omega
  next => cases read

theorem Sound.entries_succ {entries : List (String × Value)} (sound : Sound limit fuel)
    (read : readEntries (fuel + 1) text = .ok (entries, rest)) (fits : text.length ≤ limit) :
    (∀ entry ∈ entries, Storable limit entry.2 ∧ Joined (Text.points entry.1)) ∧
      entries.length + rest.length < text.length := by
  rw [readEntries.eq_def] at read
  split at read
  next fuel behind same =>
    cases same
    obtain ⟨⟨name, behind⟩, named, read⟩ := bind_eq_ok_iff.mp read
    obtain ⟨joined, shorter⟩ := readText_spec named
    have skipped := skip_le behind
    rw [List.length_cons] at fits ⊢
    simp only at read
    split at read
    next behind colon =>
      obtain ⟨⟨value, after⟩, found, read⟩ := bind_eq_ok_iff.mp read
      have blanks := skip_le behind
      rw [colon, List.length_cons] at skipped
      obtain ⟨storable, less⟩ := sound.value found (fits_of_le (by omega) fits)
      have ending := skip_le after
      simp only at read
      split at read
      next after comma =>
        obtain ⟨⟨others, rest⟩, following, read⟩ := bind_eq_ok_iff.mp read
        cases read
        have again := skip_le after
        rw [comma, List.length_cons] at ending
        obtain ⟨inside, fewer⟩ := sound.entries following (fits_of_le (by omega) fits)
        refine ⟨List.forall_mem_cons.mpr ⟨⟨storable, joined⟩, inside⟩, ?_⟩
        simp only [List.length_cons]
        omega
      next after brace =>
        cases read
        rw [brace, List.length_cons] at ending
        refine ⟨List.forall_mem_singleton.mpr ⟨storable, joined⟩, ?_⟩
        rw [List.length_singleton]
        omega
      next => cases read
    next => cases read
  next => cases read

theorem sound (limit : ℕ∞) (fuel : Nat) : Sound limit fuel := by
  induction fuel with
  | zero =>
    refine ⟨fun read => ?_, fun read => ?_, fun read => ?_⟩
    · cases read
    · cases read
    · rw [readEntries.eq_def] at read
      cases read
  | succ fuel ih => exact ⟨ih.value_succ, ih.items_succ, ih.entries_succ⟩

/-- Whatever is read can be held by a file. -/
theorem storable_of_read {text : String} (found : read text = .ok value) : Storable text.length value := by
  obtain ⟨⟨value, rest⟩, parsed, found⟩ := bind_eq_ok_iff.mp found
  have shorter := skip_le text.toList
  rw [String.length_toList] at shorter
  simp only at found
  split at found
  next =>
    cases found
    exact ((sound text.length _).value parsed (Nat.cast_le.mpr shorter)).1
  next => cases found

end Json

end SteinerTrees
