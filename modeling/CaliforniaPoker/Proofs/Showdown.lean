import CaliforniaPoker.Proofs.Round
import CaliforniaPoker.Proofs.Seats

/-!
# Hand values are totally ordered, whatever card represents them

Values of hands are compared by category and then by tiebreakers, of which there may be any number.
This file shows that the comparison is a total order in which two values are equal when they differ
in nothing but the card that represents them, and that the showdown follows it.

## Main results

* `HandRank.compare_eq_gt_of_code_lt`: the higher category wins.
* `HandRank.compare_eq_lt_of_isPrefix`: with the same category and as far as they go the same
  tiebreakers, more of them are better.
* `HandRank.beats_iff_showdown`, `HandRank.beats_trans`: beating is winning the showdown, and it is
  transitive.
* `compare_totalOrder`: the laws of the comparison and of the showdown.
-/

namespace CaliforniaPoker

variable {a b c : HandRank}

namespace HandRank

/-! ### Comparison -/

/-- The representatives are not looked at. -/
theorem compare_representative (a b : HandRank) (r r' : Option Card) :
    compare { a with representative := r } { b with representative := r' } = compare a b := rfl

/-- A higher category wins, whatever the tiebreakers are. -/
theorem compare_eq_gt_of_code_lt (h : b.category.code < a.category.code) :
    compare a b = .gt := by
  rw [compare_eq_gt_iff, le_iff]
  rintro (hlt | ⟨heq, -⟩)
  · exact Nat.lt_asymm h hlt
  · exact Nat.ne_of_gt h (congrArg Category.code heq)

/-- A list of ranks is below every longer one that begins with it. -/
theorem compare_append_cons (l : List Rank) (r : Rank) (rest : List Rank) :
    compare l (l ++ r :: rest) = .lt := by
  induction l with
  | nil => rfl
  | cons r' l ih =>
    rw [List.cons_append, List.compare_cons_cons, Std.ReflOrd.compare_self, ih]
    rfl

/-- With equal categories, and tiebreakers that are equal as far as those of the first value go, the
value that has more of them wins. -/
theorem compare_eq_lt_of_isPrefix (hcategory : a.category = b.category)
    (hbegins : a.tiebreakers <+: b.tiebreakers) (hne : a.tiebreakers ≠ b.tiebreakers) :
    compare a b = .lt := by
  obtain ⟨rest, hrest⟩ := hbegins
  cases rest with
  | nil => exact absurd ((List.append_nil _).symm.trans hrest) hne
  | cons r rest =>
    rw [compare_eq, hcategory, ← hrest, compare_append_cons, Std.ReflOrd.compare_self]
    rfl

/-- What two comparisons agree on holds between the first and the last of three values. -/
theorem compare_trans {o : Ordering} (hab : compare a b = o) (hbc : compare b c = o) :
    compare a c = o := by
  cases o with
  | lt => exact Std.TransCmp.lt_trans hab hbc
  | eq => exact Std.TransCmp.eq_trans hab hbc
  | gt => exact Std.TransCmp.gt_trans hab hbc

theorem beq_iff_compare : (a == b) = true ↔ compare a b = .eq := by
  change (compare a b == .eq) = true ↔ _
  rw [beq_iff_eq]

/-! ### Winning -/

/-- A value beats another one when it wins the showdown from the first seat. -/
theorem beats_iff_showdown : a.beats b = true ↔ showdown a b = .first := by
  rw [(showdown_eq_iff a b).1, beats, beq_iff_eq]

theorem beats_trans (hab : a.beats b = true) (hbc : b.beats c = true) : a.beats c = true := by
  rw [beats, beq_iff_eq] at *
  exact compare_trans hab hbc

end HandRank

/-- The other seat wins by as much as this one loses. -/
theorem Winner.direction_swap (w : Winner) : w.swap.direction = -w.direction := by
  cases w <;> rfl

/-- **The comparison of hands is a total order that ignores the representative.** For any values,
with any numbers of tiebreakers: of two values one is at most the other, exchanging them turns the
comparison round, and it is transitive, for strict comparisons and for equality as well. Two values
are equal exactly when they compare as equal, and this is when their categories and their
tiebreakers agree; no comparison looks at the representatives. A higher category always wins, and
with equal categories a longer list of tiebreakers is above each of its beginnings. The showdown is
a split exactly for equal values, and otherwise the seats exchanged the other seat wins. A value
beats another one exactly when it wins the showdown, and this is transitive. -/
theorem compare_totalOrder (a b c : HandRank) :
    ((compare a b).isLE ∨ (compare b a).isLE) ∧
      compare b a = (compare a b).swap ∧
      ((compare a b).isLE → (compare b c).isLE → (compare a c).isLE) ∧
      (∀ o, compare a b = o → compare b c = o → compare a c = o) ∧
      ((a == b) = true ↔ compare a b = .eq) ∧
      (compare a b = .eq ↔ a.category = b.category ∧ a.tiebreakers = b.tiebreakers) ∧
      (∀ r r', compare { a with representative := r } { b with representative := r' } =
        compare a b) ∧
      (b.category.code < a.category.code → compare a b = .gt ∧ showdown a b = .first) ∧
      (a.category = b.category → a.tiebreakers <+: b.tiebreakers →
        a.tiebreakers ≠ b.tiebreakers → compare a b = .lt) ∧
      (showdown a b = .split ↔ (a == b) = true) ∧
      (showdown a b = .first ↔ showdown b a = .second) ∧
      (showdown a b).direction = -(showdown b a).direction ∧
      (a.beats b = true ↔ showdown a b = .first) ∧
      (a.beats b = true → b.beats c = true → a.beats c = true) := by
  refine ⟨HandRank.le_total a b, HandRank.compare_swap a b, Std.TransCmp.isLE_trans,
    fun o => HandRank.compare_trans, HandRank.beq_iff_compare, HandRank.compare_eq_eq_iff,
    HandRank.compare_representative a b, fun hcode => ?_, HandRank.compare_eq_lt_of_isPrefix, ?_,
    ?_, ?_, HandRank.beats_iff_showdown, HandRank.beats_trans⟩
  · have hgt := HandRank.compare_eq_gt_of_code_lt hcode
    exact ⟨hgt, (showdown_eq_iff a b).1.mpr hgt⟩
  · rw [(showdown_eq_iff a b).2.2, HandRank.beq_iff_compare]
  · rw [showdown_swap a b]
    cases showdown a b <;> simp [Winner.swap]
  · rw [showdown_swap a b, Winner.direction_swap, Int.neg_neg]

end CaliforniaPoker
