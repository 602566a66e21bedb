import CaliforniaPoker.Proofs.Pool
import Mathlib.Data.List.InsertIdx

/-!
# A pool does not lose by more or wilder entries

An entry that comes into a pool shifts the positions of the entries behind it, and a wild in the
place of a natural changes the candidates that have this natural. Neither matters for the value of
the selected hand, which depends on what the naturals and the wilds of the pool reach.

## Main results

* `exists_selectBest_le_of_perm`: a pool that reaches all that another one does has no worse hand.
* `exists_selectBest_insertIdx_wild`, `exists_selectBest_insertIdx_natural`: one more entry.
* `exists_selectBest_set_wild`: a wild in the place of a natural.
* `selectBest_le_of_more`: the three of them together.
-/

namespace CaliforniaPoker

variable {pool pool' entries entries' : List HandCard} {b : BestHand} {i : Nat} {card : Card}

/-- When a pool has no fewer entries than another one, its naturals differ as those of the other one
do, and they reach with its wilds all that is reached there, its best hand is no worse. The entries
of both pools may be looked at in any order. -/
theorem exists_selectBest_le_of_perm (hok : (selectBest pool handSize).outcome = .ok b)
    (hperm : pool.Perm entries) (hperm' : pool'.Perm entries')
    (hlength : entries.length ≤ entries'.length)
    (hnodup : (entries.filterMap HandCard.card?).Nodup → (entries'.filterMap HandCard.card?).Nodup)
    (hreaches : ∀ {value},
      Reaches (entries.filterMap HandCard.card?) (entries.countP HandCard.isWild) value →
        Reaches (entries'.filterMap HandCard.card?) (entries'.countP HandCard.isWild) value) :
    ∃ b', (selectBest pool' handSize).outcome = .ok b' ∧ b.rank ≤ b'.rank := by
  have hnaturals := hperm.filterMap HandCard.card?
  have hnaturals' := hperm'.filterMap HandCard.card?
  obtain ⟨hsize, hdiffer⟩ := exists_selectBest_eq_ok_iff.mp ⟨b, hok⟩
  have hsize' : handSize ≤ pool'.length := by
    rw [hperm'.length_eq]
    exact (hsize.trans hperm.length_eq.le).trans hlength
  have hdiffer' := hnaturals'.nodup_iff.mpr (hnodup (hnaturals.nodup_iff.mp hdiffer))
  obtain ⟨b', hok'⟩ := exists_selectBest_of_nodup hsize' hdiffer'
  have hvalue : Reaches (entries.filterMap HandCard.card?) (entries.countP HandCard.isWild) b.rank :=
    (isGreatest_selectBest hok).1.mono hnaturals.subset (hperm.countP_eq _).le
  have hvalue' := (hreaches hvalue).mono hnaturals'.symm.subset (hperm'.countP_eq _).ge
  exact ⟨b', hok', (isGreatest_selectBest hok').2 hvalue'⟩

/-- One more wild, wherever it comes in, does no harm. -/
theorem exists_selectBest_insertIdx_wild (hok : (selectBest pool handSize).outcome = .ok b)
    (hi : i ≤ pool.length) :
    ∃ b', (selectBest (pool.insertIdx i .wild) handSize).outcome = .ok b' ∧ b.rank ≤ b'.rank := by
  refine exists_selectBest_le_of_perm hok (List.Perm.refl _) (List.perm_insertIdx _ _ hi)
    (Nat.le_succ _) id fun hvalue => ?_
  rw [filterMap_card?_wild, countP_isWild_wild]
  exact hvalue.mono (List.Subset.refl _) (Nat.le_succ _)

/-- One more natural that the pool does not have yet, wherever it comes in, does no harm. -/
theorem exists_selectBest_insertIdx_natural (hok : (selectBest pool handSize).outcome = .ok b)
    (hi : i ≤ pool.length) (hnew : .natural card ∉ pool) :
    ∃ b', (selectBest (pool.insertIdx i (.natural card)) handSize).outcome = .ok b' ∧
      b.rank ≤ b'.rank := by
  have hcard : card ∉ pool.filterMap HandCard.card? := mt mem_filterMap_card?_iff.mp hnew
  refine exists_selectBest_le_of_perm hok (List.Perm.refl _) (List.perm_insertIdx _ _ hi)
    (Nat.le_succ _) (fun hnodup => List.nodup_cons.mpr ⟨hcard, hnodup⟩) fun hvalue => ?_
  rw [filterMap_card?_natural, countP_isWild_natural]
  exact hvalue.mono (List.subset_cons_self _ _) (Nat.le_refl _)

/-- A wild in the place of a natural does no harm: it can stand for this natural. -/
theorem exists_selectBest_set_wild (hok : (selectBest pool handSize).outcome = .ok b)
    (hcard : pool[i]? = some (.natural card)) :
    ∃ b', (selectBest (pool.set i .wild) handSize).outcome = .ok b' ∧ b.rank ≤ b'.rank := by
  obtain ⟨hi, hentry⟩ := List.getElem?_eq_some_iff.mp hcard
  have hperm : pool.Perm (.natural card :: pool.eraseIdx i) :=
    hentry ▸ (List.getElem_cons_eraseIdx_perm hi).symm
  refine exists_selectBest_le_of_perm hok hperm (List.set_perm_cons_eraseIdx hi .wild)
    (Nat.le_refl _) (fun hnodup => (List.nodup_cons.mp hnodup).2) fun hvalue => ?_
  rw [filterMap_card?_natural, countP_isWild_natural] at hvalue
  rw [filterMap_card?_wild, countP_isWild_wild]
  exact hvalue.of_cons

/-- **More or wilder entries never hurt.** When a pool has a best hand of five, it still has one
after a wild comes in at any position, after a natural that it lacks does, and after a wild takes
the place of one of its naturals; the hand is at least as good each time. -/
theorem selectBest_le_of_more (hok : (selectBest pool 5).outcome = .ok b) :
    (∀ i ≤ pool.length, ∃ b', (selectBest (pool.insertIdx i .wild) 5).outcome = .ok b' ∧
        b.rank ≤ b'.rank) ∧
      (∀ i ≤ pool.length, ∀ card, .natural card ∉ pool →
        ∃ b', (selectBest (pool.insertIdx i (.natural card)) 5).outcome = .ok b' ∧
          b.rank ≤ b'.rank) ∧
      ∀ i card, pool[i]? = some (.natural card) →
        ∃ b', (selectBest (pool.set i .wild) 5).outcome = .ok b' ∧ b.rank ≤ b'.rank :=
  ⟨fun _ hi => exists_selectBest_insertIdx_wild hok hi,
    fun _ hi _ hnew => exists_selectBest_insertIdx_natural hok hi hnew,
    fun _ _ hcard => exists_selectBest_set_wild hok hcard⟩

/-- Nothing is lost by a wild before two pairs, by a further jack behind them, or by a wild for the
nine. -/
theorem selectBest_le_of_more_two_pairs :
    ∃ b, (selectBest [.natural ⟨.hearts, .jack⟩, .natural ⟨.clubs, .jack⟩,
        .natural ⟨.spades, .four⟩, .natural ⟨.hearts, .four⟩, .natural ⟨.clubs, .nine⟩] 5).outcome =
          .ok b ∧ b.rank.category = .twoPair ∧
      (∃ b', (selectBest [.wild, .natural ⟨.hearts, .jack⟩, .natural ⟨.clubs, .jack⟩,
        .natural ⟨.spades, .four⟩, .natural ⟨.hearts, .four⟩, .natural ⟨.clubs, .nine⟩] 5).outcome =
          .ok b' ∧ b.rank ≤ b'.rank) ∧
      (∃ b', (selectBest [.natural ⟨.hearts, .jack⟩, .natural ⟨.clubs, .jack⟩,
        .natural ⟨.spades, .four⟩, .natural ⟨.hearts, .four⟩, .natural ⟨.clubs, .nine⟩,
        .natural ⟨.spades, .jack⟩] 5).outcome = .ok b' ∧ b.rank ≤ b'.rank) ∧
      ∃ b', (selectBest [.natural ⟨.hearts, .jack⟩, .natural ⟨.clubs, .jack⟩,
        .natural ⟨.spades, .four⟩, .natural ⟨.hearts, .four⟩, .wild] 5).outcome = .ok b' ∧
          b.rank ≤ b'.rank := by
  have hok : (selectBest [.natural ⟨.hearts, .jack⟩, .natural ⟨.clubs, .jack⟩,
      .natural ⟨.spades, .four⟩, .natural ⟨.hearts, .four⟩, .natural ⟨.clubs, .nine⟩] 5).outcome =
        .ok _ := rfl
  obtain ⟨hwild, hnatural, hset⟩ := selectBest_le_of_more hok
  exact ⟨_, hok, rfl, hwild 0 (by decide), hnatural 5 (by decide) ⟨.spades, .jack⟩ (by decide),
    hset 4 _ rfl⟩

end CaliforniaPoker
