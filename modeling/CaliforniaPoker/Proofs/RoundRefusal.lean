import CaliforniaPoker.Proofs.Refusal
import CaliforniaPoker.Proofs.Round
import CaliforniaPoker.Proofs.Seats
import Mathlib.Data.List.Duplicate

/-!
# Why rounds are refused

Nothing looks at the pools of a round for a card that was dealt twice. Such a card is noticed when a
player chooses its hand, and only if both copies have come to this player at the exchange. This file
shows when a round with given pools fails, and which of several reasons is reported.

## Main results

* `Opponent.exists_chooseHand_eq_ok_iff`: a hand is found in a pool exactly when its cards differ.
* `playPools_cases`: after the exchange a round comes to one of three ends.
* `nodup_of_playPools_eq_ok`: a round that succeeds leaves both players with different cards.
* `playPools_outcome_iff`: when a round with given pools fails, and why.
-/

namespace CaliforniaPoker

variable {first second : Opponent} {pool firstPool secondPool firstFinal secondFinal : List Card}
  {firstDiscards secondDiscards : DiscardChoice} {report : RoundReport} {e : GameError}

/-! ### The hands of a player -/

/-- An opponent finds a hand in a pool of five or more cards exactly when they differ. -/
theorem Opponent.exists_chooseHand_eq_ok_iff (o : Opponent) (hsize : handSize ≤ pool.length) :
    (∃ hand, (o.chooseHand pool).outcome = .ok hand) ↔ pool.Nodup := by
  have hselect : (∃ hand, (selectBest (pool.map .natural) handSize).outcome = .ok hand) ↔ _ :=
    exists_selectBest_eq_ok_iff
  rw [List.length_map, filterMap_card?_map_natural, and_iff_right hsize] at hselect
  exact hselect

/-- An opponent that finds no hand in a pool of five or more cards names one that is there twice. -/
theorem Opponent.exists_repeated_of_chooseHand (o : Opponent) (hsize : handSize ≤ pool.length)
    (h : (o.chooseHand pool).outcome = .error e) :
    ∃ card, 2 ≤ pool.count card ∧ e = .malformedHand (.duplicateCard card) := by
  obtain ⟨card, hcard, he⟩ :=
    exists_repeated_of_selectBest_eq_error (by rwa [List.length_map]) h
  rw [← count_filterMap_card?, filterMap_card?_map_natural] at hcard
  exact ⟨card, hcard, he⟩

/-! ### The course of a round -/

/-- After the exchange a round comes to one of three ends: the first player finds no hand, or else
the second player finds none, or the round succeeds. -/
theorem playPools_cases
    (hfirst : (first.chooseDiscards firstPool).outcome = .ok firstDiscards)
    (hsecond : (second.chooseDiscards secondPool).outcome = .ok secondDiscards)
    (hexchange : exchange firstPool firstDiscards secondPool secondDiscards =
      .ok (firstFinal, secondFinal))
    (hfirstSize : handSize ≤ firstFinal.length) (hsecondSize : handSize ≤ secondFinal.length) :
    (∃ card, 2 ≤ firstFinal.count card ∧ (playPools first second firstPool secondPool).outcome =
        .error (.malformedHand (.duplicateCard card))) ∨
      (firstFinal.Nodup ∧ ∃ card, 2 ≤ secondFinal.count card ∧
        (playPools first second firstPool secondPool).outcome =
          .error (.malformedHand (.duplicateCard card))) ∨
      firstFinal.Nodup ∧ secondFinal.Nodup ∧
        ∃ report, (playPools first second firstPool secondPool).outcome = .ok report := by
  have hexchanged : (Recorded.ofExcept (exchange firstPool firstDiscards secondPool
      secondDiscards)).outcome = .ok (firstFinal, secondFinal) := hexchange
  simp only [playPools, Opponent.player_chooseDiscards, Opponent.player_chooseHand]
  rw [Recorded.outcome_bind_of_ok hfirst, Recorded.outcome_bind_of_ok hsecond,
    Recorded.outcome_bind_of_ok hexchanged]
  cases hfirstHand : (first.chooseHand firstFinal).outcome with
  | error e =>
    obtain ⟨card, hcard, rfl⟩ := first.exists_repeated_of_chooseHand hfirstSize hfirstHand
    exact .inl ⟨card, hcard, Recorded.outcome_bind_of_error hfirstHand⟩
  | ok firstHand =>
    have hfirstNodup := (first.exists_chooseHand_eq_ok_iff hfirstSize).mp ⟨_, hfirstHand⟩
    rw [Recorded.outcome_bind_of_ok hfirstHand]
    cases hsecondHand : (second.chooseHand secondFinal).outcome with
    | error e =>
      obtain ⟨card, hcard, rfl⟩ := second.exists_repeated_of_chooseHand hsecondSize hsecondHand
      exact .inr (.inl ⟨hfirstNodup, card, hcard, Recorded.outcome_bind_of_error hsecondHand⟩)
    | ok secondHand =>
      have hsecondNodup := (second.exists_chooseHand_eq_ok_iff hsecondSize).mp ⟨_, hsecondHand⟩
      rw [Recorded.outcome_bind_of_ok hsecondHand]
      exact .inr (.inr ⟨hfirstNodup, hsecondNodup, _, rfl⟩)

/-- A round that succeeds leaves both players with different cards, and no card is lost. -/
theorem nodup_of_playPools_eq_ok
    (hok : (playPools first second firstPool secondPool).outcome = .ok report) :
    report.first.final.Nodup ∧ report.second.final.Nodup ∧
      (report.first.final ++ report.second.final).Perm (firstPool ++ secondPool) := by
  obtain ⟨hfirst, hsecond, -⟩ := playPools_eq_ok_iff.mp hok
  have hfirstFinal := hfirst.final_eq ▸ Card.sortById_perm _
  have hsecondFinal := hsecond.final_eq ▸ Card.sortById_perm _
  have hsize : handSize ≤ poolSize := by decide
  have hfirstSize := length_of_perm_kept_append hfirst.length_eq
    (report.second.discards.length_discarded hsecond.length_eq) hfirstFinal
  have hsecondSize := length_of_perm_kept_append hsecond.length_eq
    (report.first.discards.length_discarded hfirst.length_eq) hsecondFinal
  exact ⟨(first.exists_chooseHand_eq_ok_iff (hfirstSize ▸ hsize)).mp ⟨_, hfirst.hand_eq⟩,
    (second.exists_chooseHand_eq_ok_iff (hsecondSize ▸ hsize)).mp ⟨_, hsecond.hand_eq⟩,
    exchange_perm hfirstFinal hsecondFinal⟩

/-- **When a round fails.** A round with given pools is refused for the size of the first pool, or
else for that of the second. Two pools of eight cards are exchanged; then the round fails exactly
when one of the players holds a card twice, and names such a card of the first player, or else of
the second. So it succeeds with sixteen different cards, and with a card that was dealt twice only
if each player ends up with one of the copies. -/
theorem playPools_outcome_iff (first second : Opponent) (firstPool secondPool : List Card) :
    (firstPool.length ≠ 8 → (playPools first second firstPool secondPool).outcome =
      .error (.invalidPoolSize 8 firstPool.length)) ∧
    (firstPool.length = 8 → secondPool.length ≠ 8 →
      (playPools first second firstPool secondPool).outcome =
        .error (.invalidPoolSize 8 secondPool.length)) ∧
    (firstPool.length = 8 → secondPool.length = 8 →
      ∃ firstDiscards secondDiscards firstFinal secondFinal,
        (first.chooseDiscards firstPool).outcome = .ok firstDiscards ∧
        (second.chooseDiscards secondPool).outcome = .ok secondDiscards ∧
        exchange firstPool firstDiscards secondPool secondDiscards =
          .ok (firstFinal, secondFinal) ∧
        (∀ e, (playPools first second firstPool secondPool).outcome = .error e →
          ∃ card, e = .malformedHand (.duplicateCard card) ∧
            (2 ≤ firstFinal.count card ∨ firstFinal.Nodup ∧ 2 ≤ secondFinal.count card)) ∧
        ((∃ e, (playPools first second firstPool secondPool).outcome = .error e) ↔
          (∃ card, 2 ≤ firstFinal.count card) ∨ ∃ card, 2 ≤ secondFinal.count card) ∧
        ((∃ report, (playPools first second firstPool secondPool).outcome = .ok report) ↔
          firstFinal.Nodup ∧ secondFinal.Nodup)) ∧
    (firstPool.length = 8 → secondPool.length = 8 → (firstPool ++ secondPool).Nodup →
      ∃ report, (playPools first second firstPool secondPool).outcome = .ok report) ∧
    ∀ report, (playPools first second firstPool secondPool).outcome = .ok report →
      ∀ card, 2 ≤ (firstPool ++ secondPool).count card →
        report.first.final.count card = 1 ∧ report.second.final.count card = 1 := by
  refine ⟨fun hfirst => ?_, fun hfirst hsecond => ?_, fun hfirst hsecond => ?_,
    fun hfirst hsecond hnodup => ?_, fun report hok card hcard => ?_⟩
  · rw [playPools]
    exact Recorded.outcome_bind_of_error (outcome_bestDiscard_of_length_ne hfirst)
  · obtain ⟨firstDiscards, hfirstDiscards⟩ := first.exists_chooseDiscards hfirst
    simp only [playPools, Opponent.player_chooseDiscards]
    rw [Recorded.outcome_bind_of_ok hfirstDiscards]
    exact Recorded.outcome_bind_of_error (outcome_bestDiscard_of_length_ne hsecond)
  · obtain ⟨firstDiscards, hfirstDiscards⟩ := first.exists_chooseDiscards hfirst
    obtain ⟨secondDiscards, hsecondDiscards⟩ := second.exists_chooseDiscards hsecond
    obtain ⟨firstFinal, secondFinal, hexchange, hfirstFinal, hsecondFinal⟩ :=
      exists_exchange firstDiscards secondDiscards hfirst hsecond
    have hsize : handSize ≤ poolSize := by decide
    have hfirstSize := length_of_perm_kept_append hfirst
      (secondDiscards.length_discarded hsecond) hfirstFinal
    have hsecondSize := length_of_perm_kept_append hsecond
      (firstDiscards.length_discarded hfirst) hsecondFinal
    refine ⟨firstDiscards, secondDiscards, firstFinal, secondFinal, hfirstDiscards,
      hsecondDiscards, hexchange, ?_⟩
    rcases playPools_cases hfirstDiscards hsecondDiscards hexchange (hfirstSize ▸ hsize)
      (hsecondSize ▸ hsize) with ⟨card, hcard, houtcome⟩ | ⟨hnodup, card, hcard, houtcome⟩ |
        ⟨hfirstNodup, hsecondNodup, report, houtcome⟩ <;> rw [houtcome]
    · refine ⟨fun e he => ⟨card, (Except.error.inj he).symm, .inl hcard⟩,
        iff_of_true ⟨_, rfl⟩ (.inl ⟨card, hcard⟩), iff_of_false (by rintro ⟨_, ⟨⟩⟩) ?_⟩
      exact fun h => (List.duplicate_iff_two_le_count.mpr hcard).not_nodup h.1
    · refine ⟨fun e he => ⟨card, (Except.error.inj he).symm, .inr ⟨hnodup, hcard⟩⟩,
        iff_of_true ⟨_, rfl⟩ (.inr ⟨card, hcard⟩), iff_of_false (by rintro ⟨_, ⟨⟩⟩) ?_⟩
      exact fun h => (List.duplicate_iff_two_le_count.mpr hcard).not_nodup h.2
    · refine ⟨by rintro e ⟨⟩, iff_of_false (by rintro ⟨_, ⟨⟩⟩) ?_,
        iff_of_true ⟨report, rfl⟩ ⟨hfirstNodup, hsecondNodup⟩⟩
      rintro (⟨card, hcard⟩ | ⟨card, hcard⟩)
      · exact (List.duplicate_iff_two_le_count.mpr hcard).not_nodup hfirstNodup
      · exact (List.duplicate_iff_two_le_count.mpr hcard).not_nodup hsecondNodup
  · obtain ⟨report, hok, -⟩ := exists_playPools first second hfirst hsecond hnodup
    exact ⟨report, hok⟩
  · obtain ⟨hfirst, hsecond, hperm⟩ := nodup_of_playPools_eq_ok hok
    rw [← hperm.count_eq, List.count_append] at hcard
    have hfirstCount := List.nodup_iff_count_le_one.mp hfirst card
    have hsecondCount := List.nodup_iff_count_le_one.mp hsecond card
    omega

/-- When both players are dealt eight times the same card, both are left with it, and the round
fails for it. -/
theorem playPools_outcome_alike :
    (playPools Opponent.standard Opponent.standard (List.replicate 8 ⟨.spades, .nine⟩)
      (List.replicate 8 ⟨.spades, .nine⟩)).outcome =
        .error (.malformedHand (.duplicateCard ⟨.spades, .nine⟩)) := by
  obtain ⟨firstDiscards, secondDiscards, firstFinal, secondFinal, -, -, hexchange, herror,
      hfails, -⟩ :=
    (playPools_outcome_iff .standard .standard (List.replicate 8 ⟨.spades, .nine⟩)
      (List.replicate 8 ⟨.spades, .nine⟩)).2.2.1 rfl rfl
  have hperm := perm_of_exchange_eq_ok hexchange
  have hnine : ∀ card ∈ firstFinal ++ secondFinal, card = ⟨.spades, .nine⟩ := fun card hcard =>
    List.eq_of_mem_replicate (n := 16) (hperm.mem_iff.mp hcard)
  have hcount : firstFinal.count ⟨.spades, .nine⟩ + secondFinal.count ⟨.spades, .nine⟩ = 16 := by
    rw [← List.count_append, hperm.count_eq]
    decide
  obtain ⟨e, he⟩ : ∃ e, (playPools Opponent.standard Opponent.standard
      (List.replicate 8 ⟨.spades, .nine⟩) (List.replicate 8 ⟨.spades, .nine⟩)).outcome =
        .error e := by
    rcases Nat.lt_or_ge (firstFinal.count ⟨.spades, .nine⟩) 2 with hlt | hge
    · exact hfails.mpr (.inr ⟨⟨.spades, .nine⟩, by omega⟩)
    · exact hfails.mpr (.inl ⟨⟨.spades, .nine⟩, hge⟩)
  obtain ⟨card, rfl, htwice⟩ := herror e he
  have hmem : card ∈ firstFinal ++ secondFinal := by
    rw [← List.count_pos_iff, List.count_append]
    omega
  rw [he, hnine card hmem]

end CaliforniaPoker
