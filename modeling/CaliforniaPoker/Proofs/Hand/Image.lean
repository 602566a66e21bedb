import CaliforniaPoker.Proofs.Hand.Admitted

/-!
# The values that hands have

The values of hands, with wilds or without, are exactly the categories with the tiebreakers that
they admit. For every such value this file names a hand without wilds that has it: straights and
flushes need five different ranks, of one suit or of two, and the other categories need groups.

## Main results

* `FullHand.exists_suited`, `FullHand.exists_unsuited`: hands of five given ranks.
* `FullHand.exists_ruledValue?_of_admits`: every admitted value is that of a hand without wilds.
* `exists_ruledValue?_of_evaluateWithWilds`: the value of naturals and wilds is that of a hand
  without wilds.
* `exists_evaluate_iff`: the values of hands are the admitted ones.
-/

namespace CaliforniaPoker

namespace FullHand

variable {hand hand' : FullHand} {category category' : Category} {groups groups' : List Rank}

/-! ### Hands of five different ranks -/

/-- A hand of five different ranks that is worth more than a straight is a flush. -/
theorem isFlush_of_marks? (hnodup : hand.ranks.Nodup) (h : hand.marks? category = some groups)
    (hcode : Category.straight.code < category.code) : hand.IsFlush := by
  cases category with
  | royalFlush => exact (marks?_royalFlush_eq_some_iff.mp h).1.1
  | straightFlush => exact (marks?_straightFlush_eq_some_iff.mp h).1
  | flush => exact (marks?_flush_eq_some_iff.mp h).1
  | fullHouse | fourOfAKind => exact nomatch eq_highCard_of_marks? hnodup h rfl
  | _ => exact absurd hcode (by decide)

/-- A hand of five different ranks that is worth more than a flush is a straight. -/
theorem exists_isStraight_of_marks? (hnodup : hand.ranks.Nodup)
    (h : hand.marks? category = some groups) (hcode : Category.flush.code < category.code) :
    ∃ high, hand.IsStraight high := by
  cases category with
  | royalFlush => exact ⟨.ace, (marks?_royalFlush_eq_some_iff.mp h).1.2⟩
  | straightFlush =>
    obtain ⟨-, high, hstraight, -⟩ := marks?_straightFlush_eq_some_iff.mp h
    exact ⟨high, hstraight⟩
  | fullHouse | fourOfAKind => exact nomatch eq_highCard_of_marks? hnodup h rfl
  | _ => exact absurd hcode (by decide)

/-- A hand of five different ranks that is worth more than a high card, and no flush, is a
straight. -/
theorem exists_isStraight_of_marks?_of_not_isFlush (hnodup : hand.ranks.Nodup)
    (h : hand.marks? category = some groups) (hnot : ¬ hand.IsFlush)
    (hcode : Category.highCard.code < category.code) : ∃ high, hand.IsStraight high := by
  cases category with
  | straight =>
    obtain ⟨high, hstraight, -⟩ := marks?_straight_eq_some_iff.mp h
    exact ⟨high, hstraight⟩
  | highCard => exact absurd hcode (by decide)
  | onePair | twoPair | threeOfAKind => exact nomatch eq_highCard_of_marks? hnodup h rfl
  | _ => exact absurd (isFlush_of_marks? hnodup h (by decide)) hnot

/-- There is a hand of one suit with five given ranks. -/
theorem exists_suited {ranks : List Rank} (hnodup : ranks.Nodup)
    (hsize : ranks.length = handSize) : ∃ hand : FullHand, hand.ranks = ranks ∧ hand.IsFlush := by
  have hnone : ∀ c ∈ ([] : List Card), c.suit = .spades := List.forall_mem_nil _
  obtain ⟨hand, -, hranks, hflush⟩ :=
    exists_fullHand_of_suit hnone (List.nil_subset _) hnodup hsize
  exact ⟨hand, hranks, hflush⟩

/-- There is a hand of two suits with five given ranks. -/
theorem exists_unsuited {ranks : List Rank} (hnodup : ranks.Nodup)
    (hsize : ranks.length = handSize) :
    ∃ hand : FullHand, hand.ranks = ranks ∧ ¬ hand.IsFlush := by
  obtain ⟨r, rest, rfl⟩ := List.exists_of_length_succ _ hsize
  obtain ⟨r', rest, rfl⟩ := List.exists_of_length_succ _ (Nat.succ.inj hsize)
  have hinj : Function.Injective fun rank => ({ suit := .spades, rank } : Card) :=
    fun _ _ h => congrArg Card.rank h
  have hcards : ((⟨.hearts, r⟩ :: (r' :: rest).map fun rank => ⟨.spades, rank⟩) :
      List Card).Nodup := by
    refine List.nodup_cons.mpr ⟨fun hmem => ?_, (List.nodup_cons.mp hnodup).2.map hinj⟩
    obtain ⟨_, -, heq⟩ := List.mem_map.mp hmem
    have hsuit : Suit.spades = .hearts := congrArg Card.suit heq
    exact absurd hsuit (by decide)
  refine ⟨⟨_, by simpa using hsize, hcards⟩, by simp [ranks, Function.comp_def], fun hflush => ?_⟩
  have hsuit : Suit.hearts = .spades := hflush ⟨.hearts, r⟩ (by simp) ⟨.spades, r'⟩ (by simp)
  exact absurd hsuit (by decide)

/-- There are ranks that make every hand a straight to a rank from the five up. -/
theorem exists_window {high : Rank} (h : Rank.five.value ≤ high.value) :
    ∃ window : List Rank, window.Nodup ∧ window.length = handSize ∧
      ∀ hand : FullHand, hand.ranks = window → hand.IsStraight high := by
  obtain ⟨window, hs⟩ := exists_straight h
  refine ⟨window, nodup_of_mem_straights _ hs, length_of_mem_straights _ hs, fun hand hranks => ?_⟩
  exact isStraight_iff.mpr ⟨window, hs, hranks ▸ List.Perm.refl _⟩

/-! ### From the form of values to hands -/

theorem exists_royalFlush : ∃ hand : FullHand, hand.ruledValue? = some (.royalFlush, []) := by
  obtain ⟨window, hnodup, hsize, hwindow⟩ := exists_window (show _ ≤ Rank.ace.value by decide)
  obtain ⟨hand, hranks, hflush⟩ := exists_suited hnodup hsize
  refine ⟨hand, ruledValue?_eq_some_iff.mpr ⟨?_, fun category _ _ => ?_⟩⟩
  · exact marks?_royalFlush_eq_some_iff.mpr ⟨⟨hflush, hwindow hand hranks⟩, rfl⟩
  · cases category <;> decide

theorem exists_straightFlush {high : Rank} (hlow : Rank.five.value ≤ high.value)
    (hhigh : high.value ≤ Rank.king.value) :
    ∃ hand : FullHand, hand.ruledValue? = some (.straightFlush, [high]) := by
  obtain ⟨window, hnodup, hsize, hwindow⟩ := exists_window hlow
  obtain ⟨hand, hranks, hflush⟩ := exists_suited hnodup hsize
  have hstraight := hwindow hand hranks
  refine ⟨hand, ruledValue?_eq_some_iff.mpr ⟨?_, fun category groups hmarks => ?_⟩⟩
  · exact marks?_straightFlush_eq_some_iff.mpr ⟨hflush, high, hstraight, rfl⟩
  · cases category with
    | royalFlush =>
      -- a straight to the ace is no other straight
      obtain rfl := hstraight.unique (marks?_royalFlush_eq_some_iff.mp hmarks).1.2
      exact absurd hhigh (by decide)
    | _ => decide

theorem exists_flush (h : IsBroken groups) :
    ∃ hand : FullHand, hand.ruledValue? = some (.flush, groups) := by
  have hdescends := h.2.1
  obtain ⟨hand, rfl, hflush⟩ := exists_suited (Rank.nodup_of_descends hdescends) h.1
  have hself := byMultiplicity_eq_self hdescends
  rw [← hself, isBroken_byMultiplicity_iff hflush.nodup_ranks] at h
  refine ⟨hand, ruledValue?_eq_some_iff.mpr ⟨?_, fun category groups hmarks => ?_⟩⟩
  · exact marks?_flush_eq_some_iff.mpr ⟨hflush, hself⟩
  · refine Nat.le_of_not_lt fun hcode => ?_
    obtain ⟨high, hstraight⟩ := exists_isStraight_of_marks? hflush.nodup_ranks hmarks hcode
    exact h high hstraight

theorem exists_straight_to {high : Rank} (hlow : Rank.five.value ≤ high.value) :
    ∃ hand : FullHand, hand.ruledValue? = some (.straight, [high]) := by
  obtain ⟨window, hnodup, hsize, hwindow⟩ := exists_window hlow
  obtain ⟨hand, hranks, hnot⟩ := exists_unsuited hnodup hsize
  have hstraight := hwindow hand hranks
  refine ⟨hand, ruledValue?_eq_some_iff.mpr ⟨?_, fun category groups hmarks => ?_⟩⟩
  · exact marks?_straight_eq_some_iff.mpr ⟨high, hstraight, rfl⟩
  · exact Nat.le_of_not_lt fun hcode => hnot (isFlush_of_marks? hstraight.nodup_ranks hmarks hcode)

theorem exists_highCard (h : IsBroken groups) :
    ∃ hand : FullHand, hand.ruledValue? = some (.highCard, groups) := by
  have hdescends := h.2.1
  have hnodup := Rank.nodup_of_descends hdescends
  obtain ⟨hand, rfl, hnot⟩ := exists_unsuited hnodup h.1
  have hself := byMultiplicity_eq_self hdescends
  rw [← hself, isBroken_byMultiplicity_iff hnodup] at h
  refine ⟨hand, ruledValue?_eq_some_iff.mpr ⟨?_, fun category groups hmarks => ?_⟩⟩
  · exact marks?_highCard_eq_some_iff.mpr ⟨hnodup, hself⟩
  · refine Nat.le_of_not_lt fun hcode => ?_
    obtain ⟨high, hstraight⟩ :=
      exists_isStraight_of_marks?_of_not_isFlush hnodup hmarks hnot hcode
    exact h high hstraight

theorem exists_groups {sizes : List Nat} (hsizes : category.sizes? = some sizes)
    (hpaired : category ≠ .highCard) (h : category.Admits groups) :
    ∃ hand : FullHand, hand.ruledValue? = some (category, groups) := by
  have hgroups := (isGrouping_iff_admits hsizes hpaired).mpr h
  obtain ⟨hand, -, hshown⟩ := exists_fullHand_of_isGrouping List.nodup_nil
    (Category.isShape_of_sizes?_eq_some hsizes) hgroups (List.nil_subperm)
  rw [← marks?_eq_groups? hsizes] at hshown
  refine ⟨hand, ruledValue?_eq_some_iff.mpr ⟨hshown, fun category' groups' hmarks => ?_⟩⟩
  rw [eq_of_marks?_of_paired hshown hsizes hpaired hmarks]

/-- Every value that a category admits is that of a hand. -/
theorem exists_ruledValue?_of_admits (h : category.Admits groups) :
    ∃ hand : FullHand, hand.ruledValue? = some (category, groups) := by
  match category, groups, h with
  | .royalFlush, [], _ => exact exists_royalFlush
  | .straightFlush, [high], h => exact exists_straightFlush h.1 h.2
  | .flush, _, h => exact exists_flush h
  | .straight, [high], h => exact exists_straight_to h
  | .highCard, _, h => exact exists_highCard h
  | .onePair, _, h | .twoPair, _, h | .threeOfAKind, _, h | .fullHouse, _, h
  | .fourOfAKind, _, h => exact exists_groups rfl (by decide) h

/-- The values of hands are those that their categories admit. -/
theorem exists_ruledValue?_iff :
    (∃ hand : FullHand, hand.ruledValue? = some (category, groups)) ↔ category.Admits groups :=
  ⟨fun ⟨_, h⟩ => admits_of_ruledValue? h, exists_ruledValue?_of_admits⟩

end FullHand

/-! ### The values of all hands -/

variable {naturals : List Card} {wilds : Nat} {entries : List HandCard} {h : HandRank}

/-- The value of naturals and wilds is that of a hand without wilds which keeps the naturals. -/
theorem exists_ruledValue?_of_evaluateWithWilds (hok : evaluateWithWilds naturals wilds = .ok h) :
    ∃ hand : FullHand, naturals ⊆ hand.cards ∧
      hand.ruledValue? = some (h.category, h.tiebreakers) := by
  obtain ⟨hsize, hnodup, -⟩ := evaluateWithWilds_eq_ok hok
  obtain ⟨hreached, hgreatest⟩ := isGreatest_evaluateWithWilds hok
  obtain ⟨hand, hkeep, hmarks⟩ := (reaches_iff hnodup hsize).mp hreached
  refine ⟨hand, hkeep, FullHand.ruledValue?_eq_some_iff.mpr ⟨hmarks, ?_⟩⟩
  intro category groups hshown
  have hle : ⟨category, groups, none⟩ ≤ h :=
    hgreatest ((reaches_iff hnodup hsize).mpr ⟨hand, hkeep, hshown⟩)
  rcases HandRank.le_iff.mp hle with hlt | ⟨heq, -⟩
  · exact Nat.le_of_lt hlt
  · exact Nat.le_of_eq (congrArg Category.code heq)

theorem exists_ruledValue?_of_evaluate (hok : evaluate entries = .ok h) :
    ∃ hand : FullHand, hand.ruledValue? = some (h.category, h.tiebreakers) := by
  obtain ⟨hand, -, hruled⟩ := exists_ruledValue?_of_evaluateWithWilds hok
  exact ⟨hand, hruled⟩

/-- The tiebreakers of a hand are such as its category admits. -/
theorem admits_of_evaluate (hok : evaluate entries = .ok h) : h.category.Admits h.tiebreakers :=
  FullHand.exists_ruledValue?_iff.mp (exists_ruledValue?_of_evaluate hok)

/-- A hand without wilds is evaluated to the value that the rules give it. -/
theorem FullHand.exists_evaluate {hand : FullHand} {category : Category} {groups : List Rank}
    (hruled : hand.ruledValue? = some (category, groups)) :
    ∃ h, evaluate (hand.cards.map .natural) = .ok h ∧ h.category = category ∧
      h.tiebreakers = groups := by
  have hsize : hand.cards.length + 0 = handSize := hand.length_eq
  obtain ⟨h, hok⟩ := exists_evaluateWithWilds hand.nodup hsize
  obtain ⟨hand', hkeep, hruled'⟩ := exists_ruledValue?_of_evaluateWithWilds hok
  -- five cards that keep five cards are the same cards
  have hperm : hand.cards.Perm hand'.cards :=
    (List.subperm_of_subset hand.nodup hkeep).perm_of_length_le
      (hand'.length_eq.trans hand.length_eq.symm).le
  rw [ruledValue?_congr hperm, hruled', Option.some.injEq, Prod.mk.injEq] at hruled
  exact ⟨h, by rw [evaluate_map_natural, hok], hruled⟩

/-- **The values of hands are exactly those that their categories admit.** A category and
tiebreakers are the value of some five entries exactly when the category admits the tiebreakers, and
then they are the value of five natural cards. -/
theorem exists_evaluate_iff (category : Category) (tiebreakers : List Rank) :
    ((∃ entries h, entries.length = 5 ∧ evaluate entries = .ok h ∧ h.category = category ∧
        h.tiebreakers = tiebreakers) ↔ category.Admits tiebreakers) ∧
      ((∃ cards : List Card, ∃ h, evaluate (cards.map .natural) = .ok h ∧ h.category = category ∧
        h.tiebreakers = tiebreakers) ↔ category.Admits tiebreakers) := by
  rw [← FullHand.exists_ruledValue?_iff]
  refine ⟨⟨?_, ?_⟩, ⟨?_, ?_⟩⟩
  · rintro ⟨entries, h, -, hok, rfl, rfl⟩
    exact exists_ruledValue?_of_evaluate hok
  · rintro ⟨hand, hruled⟩
    obtain ⟨h, hok, hvalue⟩ := FullHand.exists_evaluate hruled
    exact ⟨_, h, length_of_evaluate_eq_ok hok, hok, hvalue⟩
  · rintro ⟨cards, h, hok, rfl, rfl⟩
    exact exists_ruledValue?_of_evaluate hok
  · rintro ⟨hand, hruled⟩
    exact ⟨hand.cards, FullHand.exists_evaluate hruled⟩

end CaliforniaPoker
