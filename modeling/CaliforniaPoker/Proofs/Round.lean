import CaliforniaPoker.Proofs.Deck
import CaliforniaPoker.Proofs.DiscardSearch
import CaliforniaPoker.Proofs.Exchange
import CaliforniaPoker.Proofs.Pool
import CaliforniaPoker.Round

/-!
# Rounds succeed and go to the better hand

A round consists of two searches for discards, an exchange, two searches for hands and a showdown.
This file shows that none of them fails when the players are dealt sixteen different cards, as they
are from a deck, and what the report of the round says then.

## Main definitions

* `BestHand.IsBestOf`: a hand of five cards of a pool that no five cards of the pool beat.
* `SeatReport.IsPlayedWith`: what a player has at the end of a round, given what it received.
* `RoundReport.IsSound`: what both players have, with no card lost and the right winner.

## Main results

* `Opponent.exists_chooseDiscards`: the search for discards succeeds on every pool of eight cards.
* `Opponent.exists_chooseHand`: the search for a hand succeeds on every pool of different cards.
* `exists_playPools`: a round with sixteen different cards succeeds, and its report is sound.
* `Deck.IsWhole.exists_playRound`: so does a round from a deck with sixteen cards left.
-/

namespace CaliforniaPoker

variable {pool firstPool secondPool : List Card} {deck : Deck}

/-! ### The decisions of a player -/

/-- An opponent finds its discards in every pool of eight cards. -/
theorem Opponent.exists_chooseDiscards (o : Opponent) (hpool : pool.length = poolSize) :
    ∃ d, (o.chooseDiscards pool).outcome = .ok d := by
  obtain ⟨d, hok, -⟩ := exists_bestDiscard o.weights hpool
  exact ⟨d, hok⟩

/-- A hand of five cards of a pool that no five cards of the pool beat, in whatever order they
are taken. -/
structure BestHand.IsBestOf (hand : BestHand) (pool : List Card) : Prop where
  isChoice : IsChoice (pool.map .natural) hand.indices hand.cards
  length_eq : hand.indices.length = handSize
  evaluate_eq : evaluate hand.cards = .ok hand.rank
  unbeaten : ∀ five : List Card, five.Subperm pool → five.length = handSize →
    ∃ rank, evaluate (five.map .natural) = .ok rank ∧ ¬ rank.beats hand.rank

/-- An opponent finds the best hand of every pool of five or more different cards. -/
theorem Opponent.exists_chooseHand (o : Opponent) (hnodup : pool.Nodup)
    (hsize : handSize ≤ pool.length) :
    ∃ hand, (o.chooseHand pool).outcome = .ok hand ∧ hand.IsBestOf pool := by
  have hnaturals := filterMap_card?_map_natural pool
  obtain ⟨hand, hok⟩ : ∃ hand, (selectBest (pool.map .natural) handSize).outcome = .ok hand :=
    exists_selectBest_of_nodup (by rwa [List.length_map]) (by rwa [hnaturals])
  obtain ⟨hchoice, hlength, hvalue⟩ := selectBest_isChoice hok
  refine ⟨hand, hok, hchoice, hlength, hvalue, fun five hsub hfive => ?_⟩
  have hdifferent : five.Nodup := by
    obtain ⟨kept, hperm, hsublist⟩ := hsub
    exact hperm.nodup_iff.mp (hnodup.sublist hsublist)
  obtain ⟨rank, hrank⟩ : ∃ rank, evaluateWithWilds five 0 = .ok rank :=
    exists_evaluateWithWilds hdifferent hfive
  refine ⟨rank, by rw [evaluate_map_natural, hrank], fun hbeats => ?_⟩
  -- what five cards of the pool are worth is reached by the whole pool
  have hreached : Reaches pool 0 rank :=
    (isGreatest_evaluateWithWilds hrank).1.mono hsub.subset (Nat.le_refl 0)
  have hgreatest := isGreatest_selectBest hok
  rw [hnaturals, countP_isWild_map_natural] at hgreatest
  exact HandRank.beats_iff.mp hbeats (hgreatest.2 hreached)

/-! ### The showdown -/

/-- The first player wins with the greater value and the second with the lesser one; equal values
split the pot. -/
theorem showdown_eq_iff (a b : HandRank) :
    (showdown a b = .first ↔ compare a b = .gt) ∧ (showdown a b = .second ↔ compare a b = .lt) ∧
      (showdown a b = .split ↔ compare a b = .eq) := by
  rw [showdown]
  cases compare a b <;> simp

/-! ### Pools that are dealt already -/

/-- What a player has at the end of a round, given the cards that the other one handed over: its own
four kept cards with these, and the best hand of all eight. -/
structure SeatReport.IsPlayedWith (seat : SeatReport) (received : List Card) : Prop where
  kept_append_discarded_perm :
    (seat.discards.kept seat.dealt ++ seat.discards.discarded seat.dealt).Perm seat.dealt
  length_kept : (seat.discards.kept seat.dealt).length = 4
  length_discarded : (seat.discards.discarded seat.dealt).length = 4
  final_perm : seat.final.Perm (seat.discards.kept seat.dealt ++ received)
  isBestOf : seat.hand.IsBestOf seat.final

/-- With eight different cards after the exchange a player comes to its end of the round. -/
theorem Opponent.exists_isPlayedWith (o : Opponent) {discards : DiscardChoice}
    {dealt received final : List Card} (hdealt : dealt.length = poolSize)
    (hreceived : received.length = discardSize)
    (hfinal : final.Perm (discards.kept dealt ++ received)) (hnodup : final.Nodup) :
    ∃ hand, (o.chooseHand final).outcome = .ok hand ∧
      ({ dealt, discards, final, hand } : SeatReport).IsPlayedWith received := by
  have hlength := length_of_perm_kept_append hdealt hreceived hfinal
  have hsize : handSize ≤ poolSize := by decide
  obtain ⟨hand, hhand, hbest⟩ := o.exists_chooseHand hnodup (hlength ▸ hsize)
  exact ⟨hand, hhand, discards.kept_append_discarded_perm dealt, discards.length_kept hdealt,
    discards.length_discarded hdealt, hfinal, hbest⟩

/-- The report of a round with two pools in which no card is lost and the pot goes to the better
hand. -/
structure RoundReport.IsSound (report : RoundReport) (firstPool secondPool : List Card) : Prop where
  first_dealt : report.first.dealt = firstPool
  second_dealt : report.second.dealt = secondPool
  first_played :
    report.first.IsPlayedWith (report.second.discards.discarded report.second.dealt)
  second_played :
    report.second.IsPlayedWith (report.first.discards.discarded report.first.dealt)
  conserved : (report.first.final ++ report.second.final).Perm (firstPool ++ secondPool)
  first_wins : report.winner = .first ↔
    compare report.first.hand.rank report.second.hand.rank = .gt
  second_wins : report.winner = .second ↔
    compare report.first.hand.rank report.second.hand.rank = .lt
  split : report.winner = .split ↔
    compare report.first.hand.rank report.second.hand.rank = .eq

/-- A round with sixteen different cards succeeds, and its report is sound. -/
theorem exists_playPools (first second : Opponent) (hfirst : firstPool.length = poolSize)
    (hsecond : secondPool.length = poolSize) (hnodup : (firstPool ++ secondPool).Nodup) :
    ∃ report, (playPools first second firstPool secondPool).outcome = .ok report ∧
      report.IsSound firstPool secondPool := by
  obtain ⟨firstDiscards, hfirstDiscards⟩ := first.exists_chooseDiscards hfirst
  obtain ⟨secondDiscards, hsecondDiscards⟩ := second.exists_chooseDiscards hsecond
  obtain ⟨firstFinal, secondFinal, hexchange, hfirstFinal, hsecondFinal⟩ :=
    exists_exchange firstDiscards secondDiscards hfirst hsecond
  have hconserved := exchange_perm hfirstFinal hsecondFinal
  obtain ⟨hfirstNodup, hsecondNodup, -⟩ := List.nodup_append.mp (hconserved.nodup_iff.mpr hnodup)
  obtain ⟨firstHand, hfirstHand, hfirstPlayed⟩ := first.exists_isPlayedWith hfirst
    (secondDiscards.length_discarded hsecond) hfirstFinal hfirstNodup
  obtain ⟨secondHand, hsecondHand, hsecondPlayed⟩ := second.exists_isPlayedWith hsecond
    (firstDiscards.length_discarded hfirst) hsecondFinal hsecondNodup
  have hexchanged : (Recorded.ofExcept (exchange firstPool firstDiscards secondPool
      secondDiscards)).outcome = .ok (firstFinal, secondFinal) := hexchange
  refine ⟨⟨⟨firstPool, firstDiscards, firstFinal, firstHand⟩,
    ⟨secondPool, secondDiscards, secondFinal, secondHand⟩,
    showdown firstHand.rank secondHand.rank⟩, ?_, ?_⟩
  · simp only [playPools, Opponent.player_chooseDiscards, Opponent.player_chooseHand]
    rw [Recorded.outcome_bind_of_ok hfirstDiscards,
      Recorded.outcome_bind_of_ok hsecondDiscards, Recorded.outcome_bind_of_ok hexchanged,
      Recorded.outcome_bind_of_ok hfirstHand, Recorded.outcome_bind_of_ok hsecondHand,
      Recorded.outcome_bind_of_ok (Recorded.outcome_record _), Recorded.outcome_pure]
  · obtain ⟨hfirstWins, hsecondWins, hsplit⟩ := showdown_eq_iff firstHand.rank secondHand.rank
    exact {
      first_dealt := rfl
      second_dealt := rfl
      first_played := hfirstPlayed
      second_played := hsecondPlayed
      conserved := hconserved
      first_wins := hfirstWins
      second_wins := hsecondWins
      split := hsplit }

/-! ### Rounds from a deck -/

theorem playRound_of_lt (first second : Player) (h : deck.remaining < 2 * poolSize) :
    playRound first second deck =
      (.fail (.invalidPoolSize (2 * poolSize) deck.remaining), deck) := by
  rw [playRound, Deck.dealPools_of_lt h]

theorem playRound_of_le (first second : Player) (h : 2 * poolSize ≤ deck.remaining) :
    playRound first second deck =
      (playPools first second (deck.undealt.take poolSize)
        ((deck.undealt.drop poolSize).take poolSize), deck.advance (2 * poolSize)) := by
  rw [playRound, Deck.dealPools_of_le h]

/-- A round from a whole deck with sixteen cards left succeeds, and its report is sound. -/
theorem Deck.IsWhole.exists_playRound (hwhole : deck.IsWhole) (first second : Opponent)
    (h : 2 * poolSize ≤ deck.remaining) :
    ∃ report, (playRound first second deck).1.outcome = .ok report ∧
      report.IsSound (deck.undealt.take poolSize)
        ((deck.undealt.drop poolSize).take poolSize) := by
  rw [playRound_of_le first second h]
  have hundealt : deck.undealt.Nodup := (List.nodup_append.mp hwhole.nodup).2.1
  rw [remaining, poolSize] at h
  refine exists_playPools first second ?_ ?_ ?_
  · rw [List.length_take, poolSize]
    omega
  · rw [List.length_take, List.length_drop, poolSize]
    omega
  · rw [← List.take_add]
    exact hundealt.sublist (List.take_sublist _ _)

end CaliforniaPoker
