import CaliforniaPoker.Proofs.Hand.Completion
import CaliforniaPoker.Proofs.Hand.FlushSearch
import CaliforniaPoker.Proofs.Hand.GroupSearch
import CaliforniaPoker.Proofs.Hand.Marks

/-!
# The best tiebreakers in each category

For every category the evaluation makes one attempt to reach it with the wilds. This file shows that
each attempt finds the greatest tiebreakers that a completed hand can show in its category, and that
it fails only if no completed hand shows the marks of the category.

## Main definitions

* `attempt?`: the tiebreakers that the evaluation finds in a category.
* `IsBestMark`: tiebreakers that are the greatest in their category among all completed hands.

## Main results

* `isBestMark_bestGrouping?`, `isBestMark_flushRanks?`, `isBestMark_straightHigh?`: the searches for
  groups, for flushes and for straights find the best marks of their categories.
* `isBestMark_attempt?`: every attempt finds the best marks.
-/

namespace CaliforniaPoker

/-- The tiebreakers that the evaluation finds in a category. -/
def attempt? (naturals : List Card) (wilds : Nat) : Category → Option (List Rank)
  | .royalFlush => if straightFlushHigh? naturals wilds = some .ace then some [] else none
  | .straightFlush => (straightFlushHigh? naturals wilds).map ([·])
  | .fourOfAKind => bestGrouping? (naturals.map Card.rank) wilds [4, 1]
  | .fullHouse => bestGrouping? (naturals.map Card.rank) wilds [3, 2]
  | .flush => flushRanks? naturals wilds
  | .straight => (straightHigh? (naturals.map Card.rank)).map ([·])
  | .threeOfAKind => bestGrouping? (naturals.map Card.rank) wilds [3, 1, 1]
  | .twoPair => bestGrouping? (naturals.map Card.rank) wilds [2, 2, 1]
  | .onePair => bestGrouping? (naturals.map Card.rank) wilds [2, 1, 1, 1]
  | .highCard => bestGrouping? (naturals.map Card.rank) wilds [1, 1, 1, 1, 1]

/-- Of the hands that keep the naturals, one shows the given tiebreakers in the category and none
shows higher ones; if none are given, none shows any. -/
structure IsBestMark (naturals : List Card) (category : Category) (best : Option (List Rank)) :
    Prop where
  shown : ∀ groups, best = some groups →
    ∃ hand : FullHand, naturals ⊆ hand.cards ∧ hand.marks? category = some groups
  greatest : ∀ (hand : FullHand) (groups : List Rank), naturals ⊆ hand.cards →
    hand.marks? category = some groups →
      ∃ groups', best = some groups' ∧ (compare groups groups').isLE

variable {naturals : List Card} {wilds : Nat}

/-- The ranks of naturals that a hand keeps are among its ranks. -/
theorem FullHand.map_rank_subperm {hand : FullHand} (hnodup : naturals.Nodup)
    (hsub : naturals ⊆ hand.cards) : (naturals.map Card.rank).Subperm hand.ranks := by
  obtain ⟨l, hperm, hl⟩ := List.subperm_of_subset hnodup hsub
  exact ⟨l.map Card.rank, hperm.map _, hl.map _⟩

/-- Naturals for whose ranks the groups of a shape have room are part of a hand with these groups. -/
theorem exists_fullHand_of_isGrouping {sizes : List Nat} {groups : List Rank}
    (hnodup : naturals.Nodup) (hshape : IsShape sizes) (hgroups : IsGrouping sizes groups)
    (hsub : (naturals.map Card.rank).Subperm (spread (sizes.zip groups))) :
    ∃ hand : FullHand, naturals ⊆ hand.cards ∧ hand.groups? sizes = some groups := by
  have hfour : ∀ r, (spread (sizes.zip groups)).count r ≤ 4 := by
    intro r
    by_cases hr : r ∈ groups
    · rw [← hgroups.map_snd_zip, List.mem_map] at hr
      obtain ⟨⟨n, _⟩, hg, rfl⟩ := hr
      rw [count_spread hgroups.nodup_map_snd_zip hg]
      exact hshape.2.2.1 n (List.of_mem_zip hg).1
    · rw [count_spread_of_notMem (by rwa [hgroups.map_snd_zip])]
      exact Nat.zero_le 4
  have hlength : (spread (sizes.zip groups)).length = handSize :=
    hgroups.length_spread.trans hshape.2.2.2
  obtain ⟨hand, hkeep, hranks⟩ := exists_fullHand_of_ranks hnodup hsub hfour hlength
  exact ⟨hand, hkeep, (FullHand.groups?_eq_some_iff hshape).mpr ⟨hgroups, hranks⟩⟩

/-- The search for groups gives the best marks where groups are what the category asks for. -/
theorem isBestMark_bestGrouping? {category : Category} {sizes : List Nat} (hnodup : naturals.Nodup)
    (hsize : naturals.length + wilds = handSize) (hshape : IsShape sizes)
    (hmarks : ∀ hand : FullHand, hand.marks? category = hand.groups? sizes) :
    IsBestMark naturals category (bestGrouping? (naturals.map Card.rank) wilds sizes) where
  shown groups hbest := by
    obtain ⟨hgroups, hsub, -⟩ := bestGrouping?_sound hbest
    obtain ⟨hand, hkeep, hshown⟩ := exists_fullHand_of_isGrouping hnodup hshape hgroups hsub
    exact ⟨hand, hkeep, by rw [hmarks, hshown]⟩
  greatest hand groups hkeep hshown := by
    rw [hmarks, FullHand.groups?_eq_some_iff hshape] at hshown
    obtain ⟨hgroups, hranks⟩ := hshown
    have hsub := (FullHand.map_rank_subperm hnodup hkeep).trans hranks.subperm
    refine exists_bestGrouping? hgroups hsub ?_
    rw [List.length_map, hsize, hshape.2.2.2]

/-! ### Flushes and straights -/

/-- If a hand that keeps the naturals is a flush, the naturals have a suit for a flush. -/
theorem FullHand.IsFlush.exists_flushSuit? {hand : FullHand} (h : hand.IsFlush)
    (hkeep : naturals ⊆ hand.cards) (hsize : naturals.length + wilds = handSize) :
    ∃ suit, flushSuit? naturals wilds = some suit := by
  obtain ⟨suit, hsuit⟩ := h.exists_suit
  exact CaliforniaPoker.exists_flushSuit? hsize fun c hc => hsuit c (hkeep hc)

/-- Filling up the ranks of the naturals gives the best marks of a flush. -/
theorem isBestMark_flushRanks? (hnodup : naturals.Nodup)
    (hsize : naturals.length + wilds = handSize) :
    IsBestMark naturals .flush (flushRanks? naturals wilds) where
  shown groups hbest := by
    rw [flushRanks?_eq hsize, Option.map_eq_some_iff] at hbest
    obtain ⟨suit, hsuit, rfl⟩ := hbest
    have hall := flushSuit?_sound hsize hsuit
    have hchosen := fillRanks_sublist (naturals.map Card.rank) wilds Rank.descending
    have hkept : naturals.map Card.rank ⊆
        fillRanks (naturals.map Card.rank) wilds Rank.descending :=
      fun r hr => mem_fillRanks_of_held hr (Rank.mem_descending r)
    have hdescends := Rank.descending_pairwise.sublist hchosen
    have hlength :
        (fillRanks (naturals.map Card.rank) wilds Rank.descending).length = handSize := by
      rw [length_fillRanks, countP_mem_descending (nodup_map_rank_of_suit hnodup hall),
        List.length_map, hsize]
      rfl
    obtain ⟨hand, hkeep, hranks, hflush⟩ :=
      exists_fullHand_of_suit hall hkept (Rank.nodup_of_descends hdescends) hlength
    refine ⟨hand, hkeep, FullHand.marks?_flush_eq_some_iff.mpr ⟨hflush, ?_⟩⟩
    rw [hranks, byMultiplicity_eq_self hdescends]
  greatest hand groups hkeep hshown := by
    obtain ⟨hflush, rfl⟩ := FullHand.marks?_flush_eq_some_iff.mp hshown
    obtain ⟨suit, hsuit⟩ := hflush.exists_flushSuit? hkeep hsize
    rw [flushRanks?_eq hsize, hsuit]
    refine ⟨_, rfl, fillRanks_greatest Rank.descending_pairwise ?_ ?_ ?_⟩
    · have hsub : (byMultiplicity hand.ranks).Subperm Rank.descending :=
        List.subperm_of_subset (nodup_byMultiplicity _) fun r _ => Rank.mem_descending r
      exact List.sublist_of_subperm_of_pairwise hsub
        (byMultiplicity_descends hflush.nodup_ranks) Rank.descending_pairwise
    · intro r _ hr
      rw [mem_byMultiplicity]
      exact (FullHand.map_rank_subperm hnodup hkeep).subset hr
    · have hdifferent : (naturals.map Card.rank).Nodup :=
        nodup_map_rank_of_suit hnodup (flushSuit?_sound hsize hsuit)
      rw [countP_mem_descending hdifferent, List.length_map, hsize,
        (byMultiplicity_perm _).length_eq, hflush.nodup_ranks.dedup, hand.length_ranks]

/-- The ranks of naturals that a straight keeps are different and lie in it. -/
private theorem FullHand.IsStraight.exists_window {hand : FullHand} {high : Rank}
    (h : hand.IsStraight high) (hnodup : naturals.Nodup) (hkeep : naturals ⊆ hand.cards) :
    (naturals.map Card.rank).Nodup ∧
      ∃ window, (high, window) ∈ straights ∧ naturals.map Card.rank ⊆ window := by
  have hsub := FullHand.map_rank_subperm hnodup hkeep
  obtain ⟨window, hs, hperm⟩ := FullHand.isStraight_iff.mp h
  refine ⟨?_, window, hs, fun r hr => hperm.subset (hsub.subset hr)⟩
  obtain ⟨l, hl, hsublist⟩ := hsub
  exact hl.nodup_iff.mp (h.nodup_ranks.sublist hsublist)

/-- The first straight that has the ranks of the naturals gives the best marks of a straight. -/
theorem isBestMark_straightHigh? (hnodup : naturals.Nodup) :
    IsBestMark naturals .straight ((straightHigh? (naturals.map Card.rank)).map ([·])) where
  shown groups hbest := by
    obtain ⟨high, hhigh, rfl⟩ := Option.map_eq_some_iff.mp hbest
    obtain ⟨hdifferent, window, hs, hsub⟩ := straightHigh?_sound hhigh
    have hwindow := nodup_of_mem_straights _ hs
    have hfour : ∀ r, window.count r ≤ 4 := by
      intro r
      have hone : window.count r ≤ 1 := List.nodup_iff_count_le_one.mp hwindow r
      omega
    obtain ⟨hand, hkeep, hranks⟩ := exists_fullHand_of_ranks hnodup
      (List.subperm_of_subset hdifferent hsub) hfour (length_of_mem_straights _ hs)
    refine ⟨hand, hkeep, FullHand.marks?_straight_eq_some_iff.mpr ⟨high, ?_, rfl⟩⟩
    exact FullHand.isStraight_iff.mpr ⟨window, hs, hranks⟩
  greatest hand groups hkeep hshown := by
    obtain ⟨high, hstraight, rfl⟩ := FullHand.marks?_straight_eq_some_iff.mp hshown
    obtain ⟨hdifferent, window, hs, hsub⟩ := hstraight.exists_window hnodup hkeep
    obtain ⟨best, hbest, hle⟩ := exists_straightHigh? hdifferent hs hsub
    refine ⟨[best], by rw [hbest, Option.map_some], isLE_compare_singleton_iff.mpr hle⟩

/-- A suit for all naturals and a straight that has their ranks give the best marks of a straight
flush. -/
theorem isBestMark_straightFlushHigh? (hnodup : naturals.Nodup)
    (hsize : naturals.length + wilds = handSize) :
    IsBestMark naturals .straightFlush ((straightFlushHigh? naturals wilds).map ([·])) where
  shown groups hbest := by
    rw [straightFlushHigh?_eq hsize] at hbest
    obtain ⟨high, hfound, rfl⟩ := Option.map_eq_some_iff.mp hbest
    obtain ⟨suit, hsuit, hhigh⟩ := Option.bind_eq_some_iff.mp hfound
    obtain ⟨-, window, hs, hsub⟩ := straightHigh?_sound hhigh
    obtain ⟨hand, hkeep, hranks, hflush⟩ :=
      exists_fullHand_of_suit (flushSuit?_sound hsize hsuit) hsub
        (nodup_of_mem_straights _ hs) (length_of_mem_straights _ hs)
    refine ⟨hand, hkeep, FullHand.marks?_straightFlush_eq_some_iff.mpr ⟨hflush, high, ?_, rfl⟩⟩
    exact FullHand.isStraight_iff.mpr ⟨window, hs, hranks ▸ List.Perm.refl _⟩
  greatest hand groups hkeep hshown := by
    obtain ⟨hflush, high, hstraight, rfl⟩ := FullHand.marks?_straightFlush_eq_some_iff.mp hshown
    obtain ⟨suit, hsuit⟩ := hflush.exists_flushSuit? hkeep hsize
    obtain ⟨hdifferent, window, hs, hsub⟩ := hstraight.exists_window hnodup hkeep
    obtain ⟨best, hbest, hle⟩ := exists_straightHigh? hdifferent hs hsub
    refine ⟨[best], ?_, isLE_compare_singleton_iff.mpr hle⟩
    rw [straightFlushHigh?_eq hsize, hsuit, Option.bind_some, hbest, Option.map_some]

/-- A royal flush is found exactly when the best straight flush is one to the ace. -/
theorem isBestMark_royalFlush (hnodup : naturals.Nodup)
    (hsize : naturals.length + wilds = handSize) :
    IsBestMark naturals .royalFlush
      (if straightFlushHigh? naturals wilds = some .ace then some [] else none) where
  shown groups hbest := by
    split_ifs at hbest with hace
    obtain rfl := Option.some.inj hbest
    obtain ⟨hand, hkeep, hmarks⟩ :=
      (isBestMark_straightFlushHigh? hnodup hsize).shown [.ace] (by rw [hace, Option.map_some])
    obtain ⟨hflush, high, hstraight, hhigh⟩ := FullHand.marks?_straightFlush_eq_some_iff.mp hmarks
    obtain rfl := List.head_eq_of_cons_eq hhigh
    exact ⟨hand, hkeep, FullHand.marks?_royalFlush_eq_some_iff.mpr ⟨⟨hflush, hstraight⟩, rfl⟩⟩
  greatest hand groups hkeep hshown := by
    obtain ⟨⟨hflush, hstraight⟩, rfl⟩ := FullHand.marks?_royalFlush_eq_some_iff.mp hshown
    obtain ⟨groups', hbest, hle⟩ :=
      (isBestMark_straightFlushHigh? hnodup hsize).greatest hand [.ace] hkeep
        (FullHand.marks?_straightFlush_eq_some_iff.mpr ⟨hflush, .ace, hstraight, rfl⟩)
    obtain ⟨best, hfound, rfl⟩ := Option.map_eq_some_iff.mp hbest
    -- no rank is above the ace
    have hace : best = .ace := by
      have hvalue := isLE_compare_singleton_iff.mp hle
      cases best with
      | ace => rfl
      | _ => exact absurd hvalue (by decide)
    rw [hfound, hace]
    exact ⟨[], rfl, rfl⟩

/-- Every attempt gives the greatest tiebreakers that a hand can show in its category if it keeps
the naturals. -/
theorem isBestMark_attempt? (hnodup : naturals.Nodup) (hsize : naturals.length + wilds = handSize)
    (category : Category) : IsBestMark naturals category (attempt? naturals wilds category) := by
  cases category with
  | royalFlush => exact isBestMark_royalFlush hnodup hsize
  | straightFlush => exact isBestMark_straightFlushHigh? hnodup hsize
  | flush => exact isBestMark_flushRanks? hnodup hsize
  | straight => exact isBestMark_straightHigh? hnodup
  | fourOfAKind => exact isBestMark_bestGrouping? hnodup hsize (by decide) fun _ => rfl
  | fullHouse => exact isBestMark_bestGrouping? hnodup hsize (by decide) fun _ => rfl
  | threeOfAKind => exact isBestMark_bestGrouping? hnodup hsize (by decide) fun _ => rfl
  | twoPair => exact isBestMark_bestGrouping? hnodup hsize (by decide) fun _ => rfl
  | onePair => exact isBestMark_bestGrouping? hnodup hsize (by decide) fun _ => rfl
  | highCard => exact isBestMark_bestGrouping? hnodup hsize (by decide) fun _ => rfl

end CaliforniaPoker
