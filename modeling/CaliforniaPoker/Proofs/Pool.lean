import CaliforniaPoker.Proofs.Selection

/-!
# The wilds of a pool stand for the same cards in every hand

The evaluation of a candidate lets a wild stand for any card that the candidate lacks, even one that
lies elsewhere in the pool. This file shows that nothing is gained by that: the selected hand is
worth as much as if the wilds of the pool had been replaced, once for all candidates, by other cards
in the best way.

## Main definitions

* `Filling`: cards in the place of the wilds of a pool.

## Main results

* `isGreatest_selectBest`: the selected hand has the greatest value that the naturals and wilds of
  the pool reach.
* `exists_selectBest_of_nodup`: a pool of five entries whose naturals differ has a best hand.
* `exists_selectBest_eq_ok_iff`: only such pools have one.
* `selectBest_best_filling`: the value of a pool is the best of its fillings.
-/

namespace CaliforniaPoker

variable {pool entries : List HandCard} {b : BestHand} {value : HandRank}

/-! ### Candidates and the hands that a pool reaches -/

/-- The value of a candidate is reached by the naturals and wilds of the pool. -/
theorem reaches_of_sublist (hsub : entries.Sublist pool) (hok : evaluate entries = .ok value) :
    Reaches (pool.filterMap HandCard.card?) (pool.countP HandCard.isWild) value :=
  (isGreatest_evaluateWithWilds hok).1.mono (hsub.filterMap _).subset hsub.countP_le

/-- A hand that the naturals and wilds of a pool reach is reached by five of its entries: the
naturals of the hand, and wilds for the other cards. -/
theorem exists_sublist_of_fullHand {hand : FullHand}
    (hcount : hand.cards.countP (· ∉ pool.filterMap HandCard.card?) ≤
      pool.countP HandCard.isWild) :
    ∃ entries : List HandCard, entries.Sublist pool ∧ entries.length = handSize ∧
      entries.filterMap HandCard.card? ⊆ hand.cards := by
  obtain ⟨kept, new, hcards, hkept, -, hnew⟩ :=
    hand.exists_split (pool.filterMap HandCard.card?)
  have hnodup : kept.Nodup := (List.nodup_append.mp (hcards.nodup_iff.mpr hand.nodup)).1
  have hnaturals : (kept.map HandCard.natural).Subperm
      ((pool.filterMap HandCard.card?).map HandCard.natural) :=
    (List.subperm_of_subset hnodup hkept).map fun _ _ => HandCard.natural.inj
  have hwilds : (List.replicate new.length HandCard.wild).Sublist
      (List.replicate (pool.countP HandCard.isWild) HandCard.wild) :=
    (List.replicate_sublist_replicate HandCard.wild).mpr (hnew ▸ hcount)
  obtain ⟨entries, hperm, hsub⟩ := (hnaturals.append hwilds.subperm).trans
    (perm_naturals_append_wilds pool).subperm
  refine ⟨entries, hsub, ?_, fun c hc => ?_⟩
  · rw [hperm.length_eq, List.length_append, List.length_map, List.length_replicate,
      ← List.length_append, hcards.length_eq, hand.length_eq]
  · obtain ⟨entry, hentry, hcard⟩ := List.mem_filterMap.mp hc
    rcases List.mem_append.mp (hperm.mem_iff.mp hentry) with hmem | hmem
    · obtain ⟨c', hc', rfl⟩ := List.mem_map.mp hmem
      obtain rfl := Option.some.inj hcard
      exact hcards.subset (List.mem_append_left _ hc')
    · rw [List.eq_of_mem_replicate hmem] at hcard
      exact nomatch hcard

/-- The selected hand has the greatest value that the naturals and wilds of the pool reach. -/
theorem isGreatest_selectBest (hok : (selectBest pool handSize).outcome = .ok b) :
    IsGreatest {v | Reaches (pool.filterMap HandCard.card?) (pool.countP HandCard.isWild) v}
      b.rank := by
  constructor
  · obtain ⟨hchoice, -, hvalue⟩ := selectBest_isChoice hok
    exact reaches_of_sublist hchoice.sublist hvalue
  · rintro v ⟨hand, hcount, hmarks⟩
    obtain ⟨entries, hsub, hlength, hkeep⟩ := exists_sublist_of_fullHand hcount
    obtain ⟨indices, hchoice⟩ := exists_isChoice hsub
    obtain ⟨rank, hrank, hle, -⟩ :=
      exists_evaluate_le_of_isChoice hok hchoice (hchoice.length_eq.trans hlength)
    -- the candidate keeps to the hand, so that its wilds can stand for the other cards
    obtain ⟨hsize, hnodup, -⟩ := evaluateWithWilds_eq_ok hrank
    have hreached := (reaches_iff hnodup hsize).mpr ⟨hand, hkeep, hmarks⟩
    exact ((isGreatest_evaluateWithWilds hrank).2 hreached).trans hle

/-- A pool of five or more entries whose naturals differ has a best hand. -/
theorem exists_selectBest_of_nodup (hsize : handSize ≤ pool.length)
    (hnodup : (pool.filterMap HandCard.card?).Nodup) :
    ∃ b, (selectBest pool handSize).outcome = .ok b := by
  refine exists_selectBest hsize fun indices cards hchoice hlength => ?_
  refine exists_evaluateWithWilds (hnodup.sublist (hchoice.sublist.filterMap _)) ?_
  rw [length_naturals_add_wilds, ← hchoice.length_eq, hlength]

/-- A pool has a best hand of five exactly when it has five entries and no natural twice. -/
theorem exists_selectBest_eq_ok_iff : (∃ b, (selectBest pool handSize).outcome = .ok b) ↔
    handSize ≤ pool.length ∧ (pool.filterMap HandCard.card?).Nodup := by
  refine ⟨fun ⟨b, hok⟩ => ?_, fun ⟨hsize, hnodup⟩ => exists_selectBest_of_nodup hsize hnodup⟩
  have hsize : handSize ≤ pool.length := (selectBest_eq_ok_iff.mp hok).1
  refine ⟨hsize, List.nodup_iff_sublist.mpr fun c htwice => ?_⟩
  -- a natural that is there twice would lie in a candidate, and this candidate has no value
  have hpair : [HandCard.natural c, .natural c].Subperm pool :=
    ((htwice.map HandCard.natural).trans (List.sublist_append_left _ _)).subperm.trans
      (perm_naturals_append_wilds pool).subperm
  have htwo : 2 ≤ handSize := by decide
  obtain ⟨entries, hmem, hsub⟩ := exists_mem_choose_of_subperm hpair htwo hsize
  obtain ⟨hentries, hlength⟩ := mem_choose_iff.mp hmem
  obtain ⟨indices, hchoice⟩ := exists_isChoice hentries
  obtain ⟨rank, hrank, -⟩ :=
    exists_evaluate_le_of_isChoice hok hchoice (hchoice.length_eq.trans hlength)
  have hnodup := (exists_evaluate_eq_ok_iff.mp ⟨rank, hrank⟩).2
  obtain ⟨pair, hperm, hsublist⟩ := hsub
  have hcards := hnodup.sublist (hsublist.filterMap HandCard.card?)
  exact absurd ((hperm.filterMap HandCard.card?).nodup_iff.mp hcards) (by simp)

/-! ### Fillings -/

/-- A natural entry stands for its card, a wild for any card. -/
def HandCard.StandsFor (entry : HandCard) (card : Card) : Prop :=
  entry = .wild ∨ entry = .natural card

/-- Cards in the place of the wilds of a pool, different from its naturals and from each other. -/
structure Filling (pool : List HandCard) where
  /-- The card at every position of the pool. -/
  cards : List Card
  fills : List.Forall₂ HandCard.StandsFor pool cards
  nodup : cards.Nodup

/-- The pool without wilds that a filling makes. -/
def Filling.filled (f : Filling pool) : List HandCard := f.cards.map .natural

private theorem countP_notMem_le_of_forall₂ {cards naturals : List Card}
    (h : List.Forall₂ HandCard.StandsFor entries cards)
    (hsub : entries.filterMap HandCard.card? ⊆ naturals) :
    cards.countP (· ∉ naturals) ≤ entries.countP HandCard.isWild := by
  induction h with
  | nil => exact Nat.le_refl 0
  | @cons entry card entries cards hentry _ ih =>
    rcases hentry with rfl | rfl
    · have := ih hsub
      rw [List.countP_cons, countP_isWild_wild]
      split_ifs <;> omega
    · rw [filterMap_card?_natural, List.cons_subset] at hsub
      rw [countP_isWild_natural, List.countP_cons_of_neg (by simpa using hsub.1)]
      exact ih hsub.2

/-- The cards of a filling that are not naturals of the pool are at most as many as its wilds. -/
theorem Filling.countP_notMem_le (f : Filling pool) :
    f.cards.countP (· ∉ pool.filterMap HandCard.card?) ≤ pool.countP HandCard.isWild :=
  countP_notMem_le_of_forall₂ f.fills (List.Subset.refl _)

/-- What a filling makes is reached by the naturals and wilds of the pool. -/
theorem Filling.reaches (f : Filling pool) (h : Reaches f.cards 0 value) :
    Reaches (pool.filterMap HandCard.card?) (pool.countP HandCard.isWild) value := by
  obtain ⟨hand, hsub, hmarks⟩ := reaches_zero_iff.mp h
  refine ⟨hand, ?_, hmarks⟩
  exact ((List.subperm_of_subset hand.nodup hsub).countP_le _).trans f.countP_notMem_le

/-- A filling makes a pool with a best hand, which has the greatest value that the cards of the
filling show. -/
theorem Filling.exists_selectBest (f : Filling pool) (hsize : handSize ≤ pool.length) :
    ∃ b, (selectBest f.filled handSize).outcome = .ok b ∧
      IsGreatest {v | Reaches f.cards 0 v} b.rank := by
  have hlength : handSize ≤ f.filled.length := by
    rw [filled, List.length_map, ← f.fills.length_eq]
    exact hsize
  have hnaturals : f.filled.filterMap HandCard.card? = f.cards := filterMap_card?_map_natural _
  have hwilds : f.filled.countP HandCard.isWild = 0 := countP_isWild_map_natural _
  obtain ⟨b, hok⟩ := exists_selectBest_of_nodup hlength (hnaturals ▸ f.nodup)
  have hgreatest := isGreatest_selectBest hok
  rw [hnaturals, hwilds] at hgreatest
  exact ⟨b, hok, hgreatest⟩

/-- As many cards as there are wilds can be put in their places. -/
theorem exists_forall₂_standsFor {fills : List Card}
    (hlength : fills.length = pool.countP HandCard.isWild) :
    ∃ cards, List.Forall₂ HandCard.StandsFor pool cards ∧
      cards.Perm (pool.filterMap HandCard.card? ++ fills) := by
  induction pool generalizing fills with
  | nil =>
    obtain rfl := List.length_eq_zero_iff.mp hlength
    exact ⟨[], .nil, List.Perm.refl _⟩
  | cons entry pool ih =>
    cases entry with
    | natural card =>
      rw [countP_isWild_natural] at hlength
      obtain ⟨cards, hfills, hperm⟩ := ih hlength
      exact ⟨card :: cards, .cons (.inr rfl) hfills, hperm.cons card⟩
    | wild =>
      rw [countP_isWild_wild] at hlength
      cases fills with
      | nil => exact absurd hlength (Nat.succ_ne_zero _).symm
      | cons card fills =>
        obtain ⟨cards, hfills, hperm⟩ := ih (Nat.succ.inj hlength)
        exact ⟨card :: cards, .cons (.inl rfl) hfills,
          (hperm.cons card).trans List.perm_middle.symm⟩

/-- A hand that the naturals and wilds of a pool reach consists of cards of some filling, as long as
the pool is not larger than the deck. -/
theorem exists_filling_of_fullHand {hand : FullHand} (hroom : pool.length ≤ 52)
    (hnodup : (pool.filterMap HandCard.card?).Nodup)
    (hcount : hand.cards.countP (· ∉ pool.filterMap HandCard.card?) ≤
      pool.countP HandCard.isWild) :
    ∃ f : Filling pool, hand.cards ⊆ f.cards := by
  obtain ⟨kept, new, hcards, hkept, hnew, hlength⟩ :=
    hand.exists_split (pool.filterMap HandCard.card?)
  have hdiffer : (pool.filterMap HandCard.card? ++ new).Nodup := by
    have hnodup' := (List.nodup_append.mp (hcards.nodup_iff.mpr hand.nodup)).2.1
    refine List.nodup_append.mpr ⟨hnodup, hnodup', ?_⟩
    rintro c hc _ hc' rfl
    exact hnew c hc' hc
  -- the wilds that the hand does not need become whatever is left of the deck
  have hspace : (pool.filterMap HandCard.card? ++ new).length +
      (pool.countP HandCard.isWild - new.length) ≤ 52 := by
    have := length_naturals_add_wilds pool
    rw [List.length_append]
    omega
  obtain ⟨fresh, hfresh, hall⟩ := exists_fresh_cards hdiffer hspace
  have hfills : (new ++ fresh).length = pool.countP HandCard.isWild := by
    rw [List.length_append]
    omega
  obtain ⟨cards, hstand, hperm⟩ := exists_forall₂_standsFor hfills
  rw [List.append_assoc] at hall
  refine ⟨⟨cards, hstand, hperm.nodup_iff.mpr hall⟩, fun c hc => hperm.mem_iff.mpr ?_⟩
  rcases List.mem_append.mp (hcards.mem_iff.mpr hc) with hmem | hmem
  · exact List.mem_append_left _ (hkept hmem)
  · exact List.mem_append_right _ (List.mem_append_left _ hmem)

/-- **The wilds of a pool are worth one best filling.** A pool of 5 to 52 entries whose naturals
differ has a best hand. Its fillings have best hands too, none of a higher value, and for one of
them category and tiebreakers are the same. -/
theorem selectBest_best_filling (hsize : 5 ≤ pool.length) (hroom : pool.length ≤ 52)
    (hnodup : (pool.filterMap HandCard.card?).Nodup) :
    ∃ b, (selectBest pool 5).outcome = .ok b ∧
      (∀ f : Filling pool, ∃ b', (selectBest f.filled 5).outcome = .ok b' ∧ b'.rank ≤ b.rank) ∧
      ∃ f : Filling pool, ∃ b', (selectBest f.filled 5).outcome = .ok b' ∧
        b'.rank.category = b.rank.category ∧ b'.rank.tiebreakers = b.rank.tiebreakers := by
  obtain ⟨b, hok⟩ := exists_selectBest_of_nodup hsize hnodup
  have hgreatest := isGreatest_selectBest hok
  have hbound : ∀ f : Filling pool, ∀ v, Reaches f.cards 0 v → v ≤ b.rank :=
    fun f v hv => hgreatest.2 (f.reaches hv)
  refine ⟨b, hok, fun f => ?_, ?_⟩
  · obtain ⟨b', hok', hgreatest'⟩ := f.exists_selectBest hsize
    exact ⟨b', hok', hbound f _ hgreatest'.1⟩
  · obtain ⟨hand, hcount, hmarks⟩ := hgreatest.1
    obtain ⟨f, hsub⟩ := exists_filling_of_fullHand hroom hnodup hcount
    obtain ⟨b', hok', hgreatest'⟩ := f.exists_selectBest hsize
    have hreached : Reaches f.cards 0 b.rank := reaches_zero_iff.mpr ⟨hand, hsub, hmarks⟩
    exact ⟨f, b', hok',
      HandRank.le_antisymm_iff.mp ⟨hbound f _ hgreatest'.1, hgreatest'.2 hreached⟩⟩

/-- Two wilds complete a straight flush to the ten, and no filling makes the pool better. -/
theorem selectBest_best_filling_straightFlush :
    ∃ b, (selectBest [.natural ⟨.hearts, .nine⟩, .wild, .natural ⟨.hearts, .six⟩, .wild,
        .natural ⟨.clubs, .ace⟩, .natural ⟨.hearts, .eight⟩] 5).outcome = .ok b ∧
      b.rank.category = .straightFlush ∧ b.rank.tiebreakers = [.ten] ∧
      ∀ f : Filling [.natural ⟨.hearts, .nine⟩, .wild, .natural ⟨.hearts, .six⟩, .wild,
          .natural ⟨.clubs, .ace⟩, .natural ⟨.hearts, .eight⟩],
        ∃ b', (selectBest f.filled 5).outcome = .ok b' ∧ b'.rank ≤ b.rank := by
  have hsize : 5 ≤ [HandCard.natural ⟨.hearts, .nine⟩, .wild, .natural ⟨.hearts, .six⟩, .wild,
      .natural ⟨.clubs, .ace⟩, .natural ⟨.hearts, .eight⟩].length := by decide
  obtain ⟨b, hok, hbound, -⟩ := selectBest_best_filling hsize (by decide) (by decide)
  obtain rfl := Except.ok.inj hok
  exact ⟨_, rfl, rfl, rfl, hbound⟩

end CaliforniaPoker
