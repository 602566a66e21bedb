import CaliforniaPoker.Hand.HandRank
import Mathlib.Order.Bounds.Basic

/-!
# The order of hand values

Ranks, categories and values of hands are compared through `compare`. This file shows that these
comparisons are total orders, up to the representative in the case of hand values, and turns
hand values into a preorder.

## Main results

* `isLE_compare_cons_iff`: comparing lists of ranks, rank by rank.
* `HandRank.le_iff`: the order of values is the order of categories, refined by the tiebreakers.
* `HandRank.le_antisymm_iff`: two values bound each other when category and tiebreakers agree.
-/

namespace CaliforniaPoker

/-! ### Ranks and their lists -/

namespace Rank

theorem value_injective : Function.Injective value := by
  intro a b h
  have hok : Except.ok a = (.ok b : Except CardDefect Rank) := by
    rw [← ofValue_value a, h, ofValue_value b]
  exact Except.ok.inj hok

theorem lt_iff {a b : Rank} : a < b ↔ a.value < b.value := Iff.rfl

instance : Std.TransOrd Rank := inferInstanceAs (Std.TransCmp (compareOn value))

instance : Std.LawfulEqOrd Rank where
  eq_of_compare h := value_injective (Std.LawfulEqOrd.eq_of_compare (α := Nat) h)

instance : Std.Antisymm fun r r' : Rank => r' < r where
  antisymm _ _ hlt hgt := absurd hgt (Nat.lt_asymm hlt)

/-- Descending ranks differ. -/
theorem nodup_of_descends {ranks : List Rank} (h : ranks.Pairwise fun r r' => r' < r) :
    ranks.Nodup := by
  refine List.Pairwise.imp ?_ h
  rintro r _ hlt rfl
  exact Nat.lt_irrefl _ hlt

theorem descending_pairwise : descending.Pairwise fun r r' => r' < r := by decide

end Rank

/-- Of two lists of ranks the one with the lower head is lower; with equal heads the tails
decide. -/
theorem isLE_compare_cons_iff {r r' : Rank} {l l' : List Rank} :
    (compare (r :: l) (r' :: l')).isLE ↔ r < r' ∨ r = r' ∧ (compare l l').isLE := by
  rw [List.compare_cons_cons, Rank.lt_iff]
  change ((compare r.value r'.value).then _).isLE ↔ _
  rcases Nat.lt_trichotomy r.value r'.value with h | h | h
  · rw [Nat.compare_eq_lt.mpr h]
    simp [h]
  · obtain rfl := Rank.value_injective h
    simp
  · have hne : r ≠ r' := fun hr => Nat.lt_irrefl _ (hr ▸ h)
    rw [Nat.compare_eq_gt.mpr h]
    simp [hne, Nat.le_of_lt h]

theorem isLE_compare_singleton_iff {r r' : Rank} :
    (compare [r] [r']).isLE ↔ r.value ≤ r'.value := by
  rw [isLE_compare_cons_iff, Rank.lt_iff]
  constructor
  · rintro (h | ⟨rfl, -⟩)
    · exact Nat.le_of_lt h
    · exact Nat.le_refl _
  · intro h
    rcases Nat.lt_or_eq_of_le h with h | h
    · exact .inl h
    · exact .inr ⟨Rank.value_injective h, rfl⟩

/-! ### Hand values -/

instance : Std.TransOrd Category := inferInstanceAs (Std.TransCmp (compareOn Category.code))

instance : Std.LawfulEqOrd Category where
  eq_of_compare h := Category.code_injective (Std.LawfulEqOrd.eq_of_compare (α := Nat) h)

theorem Category.mem_all (c : Category) : c ∈ Category.all := by cases c <;> decide

namespace HandRank

instance : Std.TransOrd HandRank :=
  inferInstanceAs (Std.TransCmp (compareLex (compareOn category) (compareOn tiebreakers)))

instance : Preorder HandRank where
  le a b := (compare a b).isLE
  le_refl _ := Std.ReflCmp.isLE_rfl
  le_trans _ _ _ := Std.TransCmp.isLE_trans

theorem le_def {a b : HandRank} : a ≤ b ↔ (compare a b).isLE := Iff.rfl

theorem compare_eq (a b : HandRank) : compare a b =
    (compare a.category b.category).then (compare a.tiebreakers b.tiebreakers) := rfl

/-- One value is at most another when its category is lower, or the categories are equal and its
tiebreakers are not above. -/
theorem le_iff {a b : HandRank} : a ≤ b ↔ a.category.code < b.category.code ∨
    a.category = b.category ∧ (compare a.tiebreakers b.tiebreakers).isLE := by
  rw [le_def, compare_eq]
  change ((compare a.category.code b.category.code).then _).isLE ↔ _
  rcases Nat.lt_trichotomy a.category.code b.category.code with h | h | h
  · rw [Nat.compare_eq_lt.mpr h]
    simp [h]
  · rw [Category.code_injective h]
    simp
  · have hne : a.category ≠ b.category := fun hc => Nat.lt_irrefl _ (hc ▸ h)
    rw [Nat.compare_eq_gt.mpr h]
    simp [hne, Nat.le_of_lt h]

theorem compare_swap (a b : HandRank) : compare b a = (compare a b).swap :=
  Std.OrientedCmp.eq_swap

theorem le_total (a b : HandRank) : a ≤ b ∨ b ≤ a := by
  rw [le_def, le_def, compare_swap a b]
  cases compare a b <;> simp [Ordering.swap]

/-- Two values are compared as equal exactly when their categories and their tiebreakers agree. -/
theorem compare_eq_eq_iff {a b : HandRank} :
    compare a b = .eq ↔ a.category = b.category ∧ a.tiebreakers = b.tiebreakers := by
  rw [compare_eq, Ordering.then_eq_eq, Std.LawfulEqOrd.compare_eq_iff_eq,
    Std.LawfulEqOrd.compare_eq_iff_eq]

/-- Two values bound each other exactly when their categories and their tiebreakers agree. -/
theorem le_antisymm_iff {a b : HandRank} :
    a ≤ b ∧ b ≤ a ↔ a.category = b.category ∧ a.tiebreakers = b.tiebreakers := by
  rw [← compare_eq_eq_iff, le_def, le_def, compare_swap a b]
  cases compare a b <;> simp [Ordering.swap]

/-- Two values are equal exactly when they bound each other. -/
theorem beq_iff {a b : HandRank} : (a == b) = true ↔ a ≤ b ∧ b ≤ a := by
  change (compare a b == .eq) = true ↔ (compare a b).isLE ∧ (compare b a).isLE
  rw [compare_swap a b]
  cases compare a b <;> simp [Ordering.swap]

theorem compare_eq_gt_iff {a b : HandRank} : compare a b = .gt ↔ ¬ a ≤ b := by
  rw [le_def]
  cases compare a b <;> simp

/-- A value wins against another exactly when it is not at most the other. -/
theorem beats_iff {a b : HandRank} : a.beats b = true ↔ ¬ a ≤ b := by
  rw [beats, beq_iff_eq, compare_eq_gt_iff]

end HandRank

end CaliforniaPoker
