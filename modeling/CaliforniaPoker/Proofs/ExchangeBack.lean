import CaliforniaPoker.Proofs.Exchange

/-!
# An exchange can be undone

After an exchange the pools are sorted again, so that the cards that a player received lie scattered
among those that it kept. This file shows that their positions make up a discard set as long as all
cards differ, and that exchanging the two pools once more with these discards gives everything back.

## Main results

* `exists_ofIndices_idxOf`: the positions of the received cards make up a discard set, which hands
  over exactly these cards.
* `exchange_exchange_back`: exchanging the received cards back restores both pools.
-/

namespace CaliforniaPoker

variable {first second pool kept received : List Card}

/-- In a pool of eight different cards the positions of four cards make up a discard set, which
hands over these cards and keeps the others. -/
theorem exists_ofIndices_idxOf (hpool : pool.length = poolSize) (hnodup : pool.Nodup)
    (hperm : pool.Perm (kept ++ received)) (hreceived : received.length = discardSize) :
    ∃ d, DiscardChoice.ofIndices (received.map pool.idxOf) = .ok d ∧
      (d.kept pool).Perm kept ∧ (d.discarded pool).Perm received := by
  have hmem : ∀ c ∈ received, c ∈ pool := fun c hc =>
    hperm.mem_iff.mpr (List.mem_append_right kept hc)
  have hdifferent : received.Nodup := (List.nodup_append.mp (hperm.nodup_iff.mp hnodup)).2.1
  have hpositions : (received.map pool.idxOf).Nodup :=
    hdifferent.map_on fun c hc _ _ h => (List.idxOf_inj (hmem c hc)).mp h
  have hbelow : ∀ i ∈ received.map pool.idxOf, i < poolSize := by
    intro i hi
    obtain ⟨c, hc, rfl⟩ := List.mem_map.mp hi
    exact hpool ▸ List.idxOf_lt_length_of_mem (hmem c hc)
  obtain ⟨d, hd⟩ := DiscardChoice.exists_indices_perm ((List.length_map _).trans hreceived)
    hpositions hbelow
  have hdiscarded : (d.discarded pool).Perm received := by
    have hcards : (received.map pool.idxOf).map (pool[·]?) = received.map some := by
      rw [List.map_map]
      exact List.map_congr_left fun c hc => List.getElem?_idxOf (hmem c hc)
    refine (List.map_perm_map_iff (Option.some_injective Card)).mp ?_
    rw [← (d.isChoice_discarded hpool).holds, ← hcards]
    exact hd.map _
  refine ⟨d, DiscardChoice.ofIndices_eq_ok_iff.mpr hd, ?_, hdiscarded⟩
  -- besides the received cards the pool consists of the same cards on both sides
  refine (List.perm_append_right_iff received).mp ?_
  exact (hdiscarded.symm.append_left _).trans ((d.kept_append_discarded_perm pool).trans hperm)

/-- **An exchange can be undone by an exchange.** When sixteen different cards are exchanged, the
positions of the cards that each player received make up a discard set of the pool that it holds
then, and the exchange with these discards gives both players the pools that they were dealt, by
ascending deck id. -/
theorem exchange_exchange_back (firstDiscards secondDiscards : DiscardChoice)
    (hfirst : first.length = 8) (hsecond : second.length = 8) (hnodup : (first ++ second).Nodup) :
    ∃ firstFinal secondFinal firstOut secondOut firstBack secondBack,
      exchange first firstDiscards second secondDiscards = .ok (firstFinal, secondFinal) ∧
      IsChoice first firstDiscards.indices firstOut ∧
      IsChoice second secondDiscards.indices secondOut ∧
      DiscardChoice.ofIndices (secondOut.map firstFinal.idxOf) = .ok firstBack ∧
      DiscardChoice.ofIndices (firstOut.map secondFinal.idxOf) = .ok secondBack ∧
      exchange firstFinal firstBack secondFinal secondBack =
        .ok (Card.sortById first, Card.sortById second) := by
  obtain ⟨firstFinal, secondFinal, hexchange, hfirstFinal, hsecondFinal⟩ :=
    exists_exchange firstDiscards secondDiscards hfirst hsecond
  have hfinals : (firstFinal ++ secondFinal).Nodup :=
    (exchange_perm hfirstFinal hsecondFinal).nodup_iff.mpr hnodup
  obtain ⟨hfirstNodup, hsecondNodup, -⟩ := List.nodup_append.mp hfinals
  have hfirstOut := firstDiscards.length_discarded hfirst
  have hsecondOut := secondDiscards.length_discarded hsecond
  have hfirstLength := length_of_perm_kept_append hfirst hsecondOut hfirstFinal
  have hsecondLength := length_of_perm_kept_append hsecond hfirstOut hsecondFinal
  obtain ⟨firstBack, hfirstBack, hfirstKept, hfirstReturned⟩ :=
    exists_ofIndices_idxOf hfirstLength hfirstNodup hfirstFinal hsecondOut
  obtain ⟨secondBack, hsecondBack, hsecondKept, hsecondReturned⟩ :=
    exists_ofIndices_idxOf hsecondLength hsecondNodup hsecondFinal hfirstOut
  refine ⟨firstFinal, secondFinal, _, _, firstBack, secondBack, hexchange,
    firstDiscards.isChoice_discarded hfirst, secondDiscards.isChoice_discarded hsecond, hfirstBack,
    hsecondBack, exchange_eq_ok_iff.mpr ⟨⟨hfirstLength, ?_⟩, hsecondLength, ?_⟩⟩
  · refine Card.sortById_eq_of_perm ?_
    exact (firstDiscards.kept_append_discarded_perm first).symm.trans
      (hfirstKept.append hsecondReturned).symm
  · refine Card.sortById_eq_of_perm ?_
    exact (secondDiscards.kept_append_discarded_perm second).symm.trans
      (hsecondKept.append hfirstReturned).symm

/-- What is given back to two players whose pools descend are their pools in ascending order. -/
theorem exchange_exchange_back_descending :
    ∃ firstFinal secondFinal firstBack secondBack,
      exchange (fullDeck.take 8).reverse .lowest ((fullDeck.drop 8).take 8).reverse .lowest =
        .ok (firstFinal, secondFinal) ∧
      exchange firstFinal firstBack secondFinal secondBack =
        .ok (fullDeck.take 8, (fullDeck.drop 8).take 8) := by
  obtain ⟨firstFinal, secondFinal, -, -, firstBack, secondBack, hexchange, -, -, -, -, hback⟩ :=
    @exchange_exchange_back (fullDeck.take 8).reverse ((fullDeck.drop 8).take 8).reverse .lowest
      .lowest rfl rfl (by decide)
  have hfirst : Card.sortById (fullDeck.take 8).reverse = fullDeck.take 8 :=
    Card.sortById_eq_iff.mpr ⟨by decide, (List.reverse_perm _).symm⟩
  have hsecond : Card.sortById ((fullDeck.drop 8).take 8).reverse = (fullDeck.drop 8).take 8 :=
    Card.sortById_eq_iff.mpr ⟨by decide, (List.reverse_perm _).symm⟩
  rw [hfirst, hsecond] at hback
  exact ⟨firstFinal, secondFinal, firstBack, secondBack, hexchange, hback⟩

end CaliforniaPoker
