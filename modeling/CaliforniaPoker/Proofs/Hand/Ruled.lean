import CaliforniaPoker.Proofs.Hand.Wilds

/-!
# Hands without wilds have the value that the rules give

The evaluation looks for straights, flushes and groups one after the other, with a search for the
groups. For five different natural cards it comes to the value that the rules of poker give: the
highest category whose marks the hand shows, with the tiebreakers that belong to it.

## Main results

* `FullHand.isBestMark_marks?`: without wilds, the marks of a hand are the best marks.
* `FullHand.exists_ruledValue?`: the rules give every hand a value.
* `evaluate_eq_ruledValue?`: the evaluation gives the value of the rules.
-/

namespace CaliforniaPoker

namespace FullHand

variable {hand : FullHand}

/-- A hand is the only one that keeps its cards, so that its marks are the best ones. -/
theorem isBestMark_marks? (hand : FullHand) (category : Category) :
    IsBestMark hand.cards category (hand.marks? category) where
  shown _ hmarks := ⟨hand, List.Subset.refl _, hmarks⟩
  greatest hand' groups hkeep hmarks := by
    have hsub := List.subperm_of_subset hand.nodup hkeep
    have hperm := hsub.perm_of_length_le (by rw [hand.length_eq, hand'.length_eq])
    rw [marks?_congr hperm]
    exact ⟨groups, hmarks, Std.ReflCmp.isLE_rfl⟩

/-- The rules give every hand a value. -/
theorem exists_ruledValue? (hand : FullHand) :
    ∃ category groups, hand.ruledValue? = some (category, groups) := by
  obtain ⟨category, groups, hmarks⟩ := hand.exists_marks
  obtain ⟨⟨category', groups'⟩, hfound⟩ := exists_findSome?_of_marks hmarks
  exact ⟨category', groups', hfound⟩

end FullHand

/-- **Hands without wilds are classified by the rules of poker.** Five different natural cards
always have a value, and it has the category and the tiebreakers that the rules give. -/
theorem evaluate_eq_ruledValue? (hand : FullHand) :
    ∃ h, evaluate (hand.cards.map .natural) = .ok h ∧
      hand.ruledValue? = some (h.category, h.tiebreakers) := by
  have hsize : hand.cards.length + 0 = handSize := hand.length_eq
  obtain ⟨h, hok⟩ := exists_evaluateWithWilds hand.nodup hsize
  refine ⟨h, by rw [evaluate_map_natural, hok], ?_⟩
  obtain ⟨category, groups, hruled⟩ := hand.exists_ruledValue?
  -- both are the greatest value that the hand reaches without wilds
  have hgreatest : IsGreatest {v | Reaches hand.cards 0 v} ⟨category, groups, none⟩ :=
    isGreatest_of_findSome? hand.nodup hsize hand.isBestMark_marks? hruled
  have heval := isGreatest_evaluateWithWilds hok
  obtain ⟨hcategory, hgroups⟩ :=
    HandRank.le_antisymm_iff.mp ⟨hgreatest.2 heval.1, heval.2 hgreatest.1⟩
  rw [hruled, hcategory, hgroups]

/-- An ace with the two to the five makes the lowest straight. -/
example : FullHand.ruledValue? ⟨[⟨.hearts, .four⟩, ⟨.clubs, .ace⟩, ⟨.spades, .two⟩,
    ⟨.hearts, .five⟩, ⟨.diamonds, .three⟩], rfl, by decide⟩ = some (.straight, [.five]) := by
  decide

end CaliforniaPoker
