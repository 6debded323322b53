import Mathlib.Data.List.NodupEquivFin
import Mathlib.Data.List.ProdSigma

/-! # Lists

Lists taken apart at a mark, lists of which some members have a value, and lists of pairs. -/

namespace SteinerTrees

variable {α β γ δ κ : Type}

/-! ## Marks -/

theorem eq_nil_of_cons_eq_append {mark : α} {between back back' : List α} (plain : mark ∉ back)
    (same : mark :: back = between ++ mark :: back') : between = [] := by
  cases between with
  | nil => rfl
  | cons first others =>
    apply absurd _ plain
    rw [(List.cons.inj same).2]
    exact List.mem_append_right others List.mem_cons_self

/-- A text is taken apart at its last mark. -/
theorem eq_of_append_cons {mark : α} {front front' back back' : List α} (plain : mark ∉ back)
    (plain' : mark ∉ back') (same : front ++ mark :: back = front' ++ mark :: back') :
    front = front' ∧ back = back' := by
  rcases List.append_eq_append_iff.mp same with ⟨between, rfl, rest⟩ | ⟨between, rfl, rest⟩
  · obtain rfl := eq_nil_of_cons_eq_append plain rest
    exact ⟨(List.append_nil front).symm, (List.cons.inj rest).2⟩
  · obtain rfl := eq_nil_of_cons_eq_append plain' rest
    exact ⟨List.append_nil front', (List.cons.inj rest).2.symm⟩

/-! ## Values of members -/

theorem map_some_filterMap (f : α → Option β) (values : List α) (present : ∀ a ∈ values, f a ≠ none) :
    (values.filterMap f).map some = values.map f := by
  induction values with
  | nil => rfl
  | cons a rest ih =>
    obtain ⟨b, image⟩ := Option.ne_none_iff_exists'.mp (present a List.mem_cons_self)
    rw [List.filterMap_cons, image, List.map_cons, List.map_cons, image,
      ih fun other member => present other (List.mem_cons_of_mem a member)]

theorem mapM_id_map_some (values : List α) : (values.map some).mapM id = some values := by
  induction values with
  | nil => rfl
  | cons value rest ih =>
    rw [List.map_cons, List.mapM_cons, ih]
    rfl

theorem eq_map_some_of_mapM_id {options : List (Option α)} {values : List α}
    (read : options.mapM id = some values) : options = values.map some := by
  induction options generalizing values with
  | nil =>
    cases read
    rfl
  | cons option rest ih =>
    rw [List.mapM_cons] at read
    cases option with
    | none => cases read
    | some value =>
      cases later : rest.mapM id with
      | none =>
        rw [later] at read
        cases read
      | some others =>
        rw [later] at read
        cases read
        rw [ih later, List.map_cons]

/-- Members that have a value keep it, and the others are filled. -/
theorem map_getD_perm (value? : α → Option β) (filled : α → β) (members : List α) :
    (members.map fun a => (value? a).getD (filled a)).Perm
      ((members.filter fun a => (value? a).isNone).map filled ++ members.filterMap value?) := by
  induction members with
  | nil => exact .nil
  | cons a members ih =>
    cases found : value? a with
    | none => simpa [found] using ih
    | some b => simpa [found] using (ih.cons b).trans List.perm_middle.symm

/-! ## Pairs -/

/-- Pairs of a key and one of its tails are distinct if the tails of each occurrence of a key are, and if two
occurrences of one key have no tail in common. -/
theorem nodup_flatMap_map_iff {pair : κ → β → γ} (injective : Function.Injective2 pair) (key : α → κ)
    (tails : α → List β) (heads : List α) : (heads.flatMap fun a => (tails a).map (pair (key a))).Nodup ↔
      (∀ a ∈ heads, (tails a).Nodup) ∧ heads.Pairwise fun a b => key a = key b → (tails a).Disjoint (tails b) := by
  have paired (a : α) : ((tails a).map (pair (key a))).Nodup ↔ (tails a).Nodup :=
    List.nodup_map_iff (injective.right (key a))
  have apart (a b : α) : ((tails a).map (pair (key a))).Disjoint ((tails b).map (pair (key b))) ↔
      (key a = key b → (tails a).Disjoint (tails b)) := by
    constructor
    · intro disjoint same c here there
      exact disjoint (List.mem_map_of_mem here) (same ▸ List.mem_map_of_mem there)
    · intro disjoint c here there
      obtain ⟨tail, member, rfl⟩ := List.mem_map.mp here
      obtain ⟨other, among, same⟩ := List.mem_map.mp there
      obtain ⟨key, rfl⟩ := injective same
      exact disjoint key.symm member among
  rw [List.nodup_flatMap]
  exact and_congr (forall₂_congr fun a _ => paired a) (List.Pairwise.iff apart)

/-- The pairs of two lists are distinct if the members of each list are, or if the other list is empty. -/
theorem nodup_product_iff {firsts : List α} {seconds : List β} :
    (firsts ×ˢ seconds).Nodup ↔ (firsts = [] ∨ seconds.Nodup) ∧ (seconds = [] ∨ firsts.Nodup) := by
  have injective : Function.Injective2 (Prod.mk : α → β → α × β) := fun _ _ _ _ => Prod.mk.inj
  refine (nodup_flatMap_map_iff injective id (fun _ => seconds) firsts).trans (and_congr ?_ ?_)
  · cases firsts with
    | nil => exact iff_of_true (fun _ member => absurd member List.not_mem_nil) (.inl rfl)
    | cons first others =>
      rw [or_iff_right (List.cons_ne_nil first others)]
      exact ⟨fun distinct => distinct first List.mem_cons_self, fun distinct _ _ => distinct⟩
  · cases seconds with
    | nil => exact iff_of_true (List.pairwise_of_forall fun _ _ _ => List.disjoint_nil_left []) (.inl rfl)
    | cons second others =>
      rw [or_iff_right (List.cons_ne_nil second others)]
      apply List.Pairwise.iff
      intro a b
      exact ⟨fun disjoint same => disjoint same List.mem_cons_self List.mem_cons_self,
        fun differ same => absurd same differ⟩

theorem map_product (f : α → γ) (g : β → δ) (firsts : List α) (seconds : List β) :
    (firsts ×ˢ seconds).map (Prod.map f g) = firsts.map f ×ˢ seconds.map g := by
  induction firsts with
  | nil => rfl
  | cons a firsts ih =>
    rw [List.product_cons, List.map_append, ih, List.map_cons, List.product_cons, List.map_map, List.map_map]
    rfl

end SteinerTrees
