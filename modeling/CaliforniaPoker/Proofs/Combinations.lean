import CaliforniaPoker.Bitfield
import CaliforniaPoker.Combinations
import Mathlib.Data.List.Perm.Subperm
import Mathlib.Data.List.Sort

/-!
# The combinations of a list

`choose` lists the sublists of a given length. This file shows that it lists all of them, that they
come in lexicographic order, and that the sublists of a list with positions are the choices of
ascending positions.

## Main definitions

* `IsChoice`: ascending positions of a list, with the entries at them.

## Main results

* `mem_choose_iff`: membership in the list of combinations.
* `choose_map`, `map_snd_choose_zipIdx`: the combinations of images and of positions.
* `exists_mem_choose_of_subperm`: few elements of a list are part of a combination.
* `pairwise_choose`: the combinations of an ascending list come in lexicographic order.
* `mem_choose_range_iff`: the combinations of the numbers below a bound.
* `IsChoice.filterMap_eq`: the entries of a choice, looked up at its positions.
* `isChoice_filter`: the choice of the positions that pass a test.
* `mem_choose_zipIdx_iff`: the combinations of a list with positions are its choices.
* `IsChoice.exists_perm_cons`: a choice without one of its positions.
-/

namespace CaliforniaPoker

variable {α : Type} {k : Nat}

/-! ### All of them, in order -/

theorem mem_choose_iff {xs ys : List α} :
    ys ∈ choose k xs ↔ ys.Sublist xs ∧ ys.length = k := by
  induction xs generalizing k ys with
  | nil =>
    rw [List.sublist_nil]
    cases k with
    | zero => simp [choose]
    | succ k =>
      rw [choose]
      constructor
      · intro h
        exact absurd h List.not_mem_nil
      · rintro ⟨rfl, hlength⟩
        exact absurd hlength (Nat.succ_ne_zero k).symm
  | cons x xs ih =>
    cases k with
    | zero =>
      rw [choose, List.mem_singleton, List.length_eq_zero_iff]
      exact ⟨fun h => ⟨h ▸ List.nil_sublist _, h⟩, And.right⟩
    | succ k =>
      rw [choose, List.mem_append, List.mem_map, List.sublist_cons_iff, ih]
      constructor
      · rintro (⟨rest, hrest, rfl⟩ | ⟨hsub, hlength⟩)
        · obtain ⟨hsub, hlength⟩ := ih.mp hrest
          exact ⟨.inr ⟨rest, rfl, hsub⟩, by rw [List.length_cons, hlength]⟩
        · exact ⟨.inl hsub, hlength⟩
      · rintro ⟨hsub | ⟨rest, rfl, hsub⟩, hlength⟩
        · exact .inr ⟨hsub, hlength⟩
        · exact .inl ⟨rest, ih.mpr ⟨hsub, Nat.succ.inj hlength⟩, rfl⟩

/-- The combinations of the images of some elements are the images of their combinations. -/
theorem choose_map {β : Type} (f : α → β) (k : Nat) (xs : List α) :
    choose k (xs.map f) = (choose k xs).map (List.map f) := by
  induction xs generalizing k with
  | nil => cases k <;> rfl
  | cons x xs ih =>
    cases k with
    | zero => rfl
    | succ k =>
      rw [List.map_cons, choose, choose, ih, ih, List.map_append, List.map_map, List.map_map]
      rfl

/-- Elements of a list that are few enough are part of one of its combinations. -/
theorem exists_mem_choose_of_subperm [DecidableEq α] {part xs : List α} (hsub : part.Subperm xs)
    (hpart : part.length ≤ k) (hk : k ≤ xs.length) : ∃ ys ∈ choose k xs, part.Subperm ys := by
  have hperm : (part ++ xs.diff part).Perm xs :=
    List.subperm_append_diff_self_of_count_le fun x _ => hsub.count_le x
  have hlength := hperm.length_eq
  rw [List.length_append] at hlength
  -- the combination is filled up with elements that are not part of it yet
  obtain ⟨ys, hys, hchosen⟩ : (part ++ (xs.diff part).take (k - part.length)).Subperm xs :=
    ((List.Sublist.refl part).append (List.take_sublist _ _)).subperm.trans hperm.subperm
  refine ⟨ys, mem_choose_iff.mpr ⟨hchosen, ?_⟩, ?_⟩
  · rw [hys.length_eq, List.length_append, List.length_take]
    omega
  · exact (List.sublist_append_left part _).subperm.trans hys.symm.subperm

/-- The combinations of a list whose elements ascend come in lexicographic order. -/
theorem pairwise_choose {f : α → Nat} {xs : List α} (h : xs.Pairwise fun x y => f x < f y) :
    (choose k xs).Pairwise fun ys zs => ys.map f < zs.map f := by
  induction xs generalizing k with
  | nil => cases k <;> simp [choose]
  | cons x xs ih =>
    cases k with
    | zero => exact List.pairwise_singleton _ _
    | succ k =>
      obtain ⟨hhead, htail⟩ := List.pairwise_cons.mp h
      rw [choose, List.pairwise_append, List.pairwise_map]
      refine ⟨(ih htail).imp fun hlt => ?_, ih htail, fun ys hys zs hzs => ?_⟩
      · exact List.cons_lt_cons_iff.mpr (.inr ⟨rfl, hlt⟩)
      · -- a combination with the first element comes before all that lack it
        obtain ⟨rest, -, rfl⟩ := List.mem_map.mp hys
        obtain ⟨hsub, hlength⟩ := mem_choose_iff.mp hzs
        cases zs with
        | nil => exact absurd hlength (Nat.succ_ne_zero k).symm
        | cons z zs =>
          exact List.cons_lt_cons_iff.mpr (.inl (hhead z (hsub.subset List.mem_cons_self)))

/-- Of the numbers below a bound those that an ascending list has make up the list. -/
theorem filter_range_eq {positions : List Nat} {n : Nat} {p : Nat → Bool}
    (hascending : positions.Pairwise (· < ·)) (hp : ∀ i, i < n ∧ p i = true ↔ i ∈ positions) :
    (List.range n).filter p = positions := by
  refine List.Perm.eq_of_pairwise' (r := (· < ·)) (List.pairwise_lt_range.filter _) hascending ?_
  have hnodup : positions.Nodup := hascending.imp Nat.ne_of_lt
  refine (List.perm_ext_iff_of_nodup (List.nodup_range.filter _) hnodup).mpr fun i => ?_
  rw [List.mem_filter, List.mem_range, hp]

/-- The bits of a bitfield that are set are the positions. -/
theorem filter_testBit_bitfieldOf {positions : List Nat} {n : Nat}
    (hascending : positions.Pairwise (· < ·)) (hbelow : ∀ i ∈ positions, i < n) :
    (List.range n).filter (bitfieldOf positions).testBit = positions :=
  filter_range_eq hascending fun i => by
    rw [testBit_bitfieldOf, decide_eq_true_iff, and_iff_right_of_imp (hbelow i)]

/-- The combinations of the numbers below a bound are the ascending lists of them. -/
theorem mem_choose_range_iff {positions : List Nat} {n : Nat} :
    positions ∈ choose k (List.range n) ↔
      positions.Pairwise (· < ·) ∧ (∀ i ∈ positions, i < n) ∧ positions.length = k := by
  rw [mem_choose_iff, ← and_assoc]
  refine and_congr_left fun _ => ⟨fun hsub => ?_, fun ⟨hascending, hbelow⟩ => ?_⟩
  · exact ⟨List.pairwise_lt_range.sublist hsub, fun i hi => List.mem_range.mp (hsub.subset hi)⟩
  · have hfilter : (List.range n).filter (· ∈ positions) = positions :=
      filter_range_eq hascending fun i => by
        rw [decide_eq_true_iff, and_iff_right_of_imp (hbelow i)]
    exact hfilter ▸ List.filter_sublist

/-! ### Choices of positions -/

/-- Positions of a list in ascending order, with the entries at these positions. -/
structure IsChoice (pool : List α) (indices : List Nat) (entries : List α) : Prop where
  /-- The positions ascend strictly. -/
  ascending : indices.Pairwise (· < ·)
  /-- Every position is one of the list and holds its entry. -/
  holds : indices.map (pool[·]?) = entries.map some

theorem IsChoice.length_eq {pool entries : List α} {indices : List Nat}
    (h : IsChoice pool indices entries) : indices.length = entries.length := by
  simpa using congrArg List.length h.holds

/-- The positions determine the entries. -/
theorem IsChoice.unique {pool entries entries' : List α} {indices : List Nat}
    (h : IsChoice pool indices entries) (h' : IsChoice pool indices entries') :
    entries = entries' :=
  List.map_injective_iff.mpr (Option.some_injective α) (h.holds.symm.trans h'.holds)

/-- Every position of a choice is one of the list. -/
theorem IsChoice.lt_length {pool entries : List α} {indices : List Nat}
    (h : IsChoice pool indices entries) : ∀ i ∈ indices, i < pool.length := by
  intro i hi
  have hmem : pool[i]? ∈ entries.map some := h.holds ▸ List.mem_map_of_mem hi
  obtain ⟨entry, -, hentry⟩ := List.mem_map.mp hmem
  exact (List.getElem?_eq_some_iff.mp hentry.symm).1

/-- Ascending positions of a list are a choice with the entries at them. -/
theorem exists_isChoice_of_lt {pool : List α} {indices : List Nat}
    (hascending : indices.Pairwise (· < ·)) (hbelow : ∀ i ∈ indices, i < pool.length) :
    ∃ entries, IsChoice pool indices entries := by
  refine ⟨indices.filterMap (pool[·]?), hascending, ?_⟩
  clear hascending
  induction indices with
  | nil => rfl
  | cons i indices ih =>
    obtain ⟨hi, hindices⟩ := List.forall_mem_cons.mp hbelow
    rw [List.map_cons, List.filterMap_cons_some (List.getElem?_eq_getElem hi), List.map_cons,
      List.getElem?_eq_getElem hi, ih hindices]

/-- The entries of a choice are those that the list has at its positions. -/
theorem IsChoice.filterMap_eq {pool entries : List α} {indices : List Nat}
    (h : IsChoice pool indices entries) : indices.filterMap (pool[·]?) = entries := by
  have hsome := congrArg (List.filterMap id) h.holds
  simpa [List.filterMap_map, Function.comp_def] using hsome

/-- The entries of a choice are, in some order, the entry at one of its positions and those at the
others. -/
theorem IsChoice.exists_perm_cons {pool entries : List α} {indices rest : List Nat} {i : Nat}
    (h : IsChoice pool indices entries) (hperm : indices.Perm (i :: rest)) :
    ∃ entry, pool[i]? = some entry ∧ entries.Perm (entry :: rest.filterMap (pool[·]?)) := by
  have hi := h.lt_length i (hperm.mem_iff.mpr List.mem_cons_self)
  obtain ⟨entry, hentry⟩ : ∃ entry, pool[i]? = some entry := ⟨_, List.getElem?_eq_getElem hi⟩
  refine ⟨entry, hentry, ?_⟩
  rw [← h.filterMap_eq, ← List.filterMap_cons_some (f := (pool[·]?)) hentry]
  exact hperm.filterMap _

theorem pairwise_zipIdx (pool : List α) (start : Nat) :
    (pool.zipIdx start).Pairwise fun x y => x.2 < y.2 := by
  induction pool generalizing start with
  | nil => exact List.Pairwise.nil
  | cons x pool ih =>
    rw [List.zipIdx_cons, List.pairwise_cons]
    exact ⟨fun y hy => List.le_snd_of_mem_zipIdx hy, ih (start + 1)⟩

/-- A list of entries with positions is part of the list with its positions exactly when it is a
choice. -/
theorem sublist_zipIdx_iff {pool : List α} {chosen : List (α × Nat)} :
    chosen.Sublist pool.zipIdx ↔ IsChoice pool (chosen.map Prod.snd) (chosen.map Prod.fst) := by
  have hholds : (chosen.map Prod.snd).map (pool[·]?) = (chosen.map Prod.fst).map some ↔
      chosen ⊆ pool.zipIdx := by
    rw [List.map_map, List.map_map, List.map_inj_left]
    exact forall₂_congr fun x _ => List.mem_zipIdx_iff_getElem?.symm
  constructor
  · intro hsub
    refine ⟨?_, hholds.mpr hsub.subset⟩
    exact List.pairwise_map.mpr ((pairwise_zipIdx pool 0).sublist hsub)
  · rintro ⟨hascending, hall⟩
    have hpairwise : chosen.Pairwise fun x y => x.2 < y.2 := List.pairwise_map.mp hascending
    have hnodup : chosen.Nodup := by
      refine List.Pairwise.imp ?_ hpairwise
      rintro x _ hlt rfl
      exact Nat.lt_irrefl _ hlt
    have : Std.Antisymm fun x y : α × Nat => x.2 < y.2 :=
      ⟨fun _ _ hlt hgt => absurd hgt (Nat.lt_asymm hlt)⟩
    exact List.sublist_of_subperm_of_pairwise (List.subperm_of_subset hnodup (hholds.mp hall))
      hpairwise (pairwise_zipIdx pool 0)

/-- The entries at the positions that pass a test are a choice. -/
theorem isChoice_filter (p : Nat → Bool) (pool : List α) :
    IsChoice pool ((List.range pool.length).filter p)
      ((pool.zipIdx.filter fun entry => p entry.2).map Prod.fst) := by
  have hpositions : (pool.zipIdx.filter fun entry => p entry.2).map Prod.snd =
      (List.range pool.length).filter p := by
    rw [List.range_eq_range', ← List.zipIdx_map_snd, List.filter_map]
    rfl
  rw [← hpositions]
  exact sublist_zipIdx_iff.mp List.filter_sublist

/-- The combinations of a list with positions are its choices. -/
theorem mem_choose_zipIdx_iff {pool : List α} {chosen : List (α × Nat)} :
    chosen ∈ choose k pool.zipIdx ↔
      IsChoice pool (chosen.map Prod.snd) (chosen.map Prod.fst) ∧ chosen.length = k := by
  rw [mem_choose_iff, sublist_zipIdx_iff]

/-- The positions in the combinations of a list are the combinations of its positions. -/
theorem map_snd_choose_zipIdx (k : Nat) (pool : List α) :
    (choose k pool.zipIdx).map (List.map Prod.snd) = choose k (List.range pool.length) := by
  rw [← choose_map, List.zipIdx_map_snd, List.range_eq_range']

/-- Every choice is among the combinations. -/
theorem IsChoice.zip_mem_choose {pool entries : List α} {indices : List Nat}
    (h : IsChoice pool indices entries) (hlength : indices.length = k) :
    entries.zip indices ∈ choose k pool.zipIdx := by
  have hindices : (entries.zip indices).map Prod.snd = indices :=
    List.map_snd_zip h.length_eq.le
  have hentries : (entries.zip indices).map Prod.fst = entries :=
    List.map_fst_zip h.length_eq.ge
  rw [mem_choose_zipIdx_iff, hindices, hentries, List.length_zip, ← h.length_eq, Nat.min_self]
  exact ⟨h, hlength⟩

theorem IsChoice.sublist {pool entries : List α} {indices : List Nat}
    (h : IsChoice pool indices entries) : entries.Sublist pool := by
  obtain ⟨hsub, -⟩ := mem_choose_iff.mp (h.zip_mem_choose rfl)
  have hmap := hsub.map Prod.fst
  rwa [List.map_fst_zip h.length_eq.ge, List.zipIdx_map_fst] at hmap

theorem exists_isChoice {pool entries : List α} (h : entries.Sublist pool) :
    ∃ indices, IsChoice pool indices entries := by
  rw [← List.zipIdx_map_fst 0 pool, List.sublist_map_iff] at h
  obtain ⟨chosen, hsub, rfl⟩ := h
  exact ⟨_, sublist_zipIdx_iff.mp hsub⟩

end CaliforniaPoker
