import CaliforniaPoker.Proofs.Hand.Order
import CaliforniaPoker.Proofs.Hand.Rules
import Mathlib.Data.List.Perm.Subperm

/-!
# Completing natural cards to a hand

Wilds stand for cards of the deck that differ from the naturals and from each other. Whether such
cards exist depends on the ranks alone as long as no rank is asked for more than four times, and on
the suit as well where a flush is wanted.

## Main definitions

* `Reaches`: the values of the hands that natural cards and a number of wilds can become.

## Main results

* `exists_fresh_cards`: a deck has cards besides those that are given.
* `exists_fullHand_of_ranks`, `exists_fullHand_of_suit`: hands with prescribed ranks.
* `reaches_zero_iff`, `Reaches.mono`: what is reached without wilds, and with more of them.
* `Reaches.of_cons`: a wild can stand for a natural.
* `countP_notMem_le_iff`: in a list of five entries the wilds suffice exactly when all naturals are
  kept.
-/

namespace CaliforniaPoker

variable {naturals : List Card} {wilds : Nat}

/-! ### Cards of the deck -/

theorem fullDeck_nodup : fullDeck.Nodup :=
  List.Nodup.of_map Card.id (fullDeck_map_id ▸ List.nodup_range)

theorem length_le_of_nodup (hnodup : naturals.Nodup) : naturals.length ≤ 52 :=
  (List.subperm_of_subset hnodup fun c _ => mem_fullDeck c).length_le

/-- Besides different cards, as many others can be had as the deck of 52 has left. -/
theorem exists_fresh_cards {count : Nat} (hnodup : naturals.Nodup)
    (hcount : naturals.length + count ≤ 52) :
    ∃ fresh : List Card, fresh.length = count ∧ (naturals ++ fresh).Nodup := by
  have hsub : naturals.Subperm fullDeck :=
    List.subperm_of_subset hnodup fun c _ => mem_fullDeck c
  have hperm : (naturals ++ fullDeck.diff naturals).Perm fullDeck :=
    List.subperm_append_diff_self_of_count_le fun c _ => hsub.count_le c
  have hlength := hperm.length_eq
  rw [List.length_append] at hlength
  change _ = 52 at hlength
  refine ⟨(fullDeck.diff naturals).take count, ?_, ?_⟩
  · rw [List.length_take]
    omega
  · have htake := (List.Sublist.refl naturals).append
      (List.take_sublist count (fullDeck.diff naturals))
    exact (hperm.nodup_iff.mpr fullDeck_nodup).sublist htake

/-- A rank of which fewer than four cards are given has another card. -/
theorem exists_card_of_rank {r : Rank} (h : (naturals.map Card.rank).count r < 4) :
    ∃ suit, ({ suit, rank := r } : Card) ∉ naturals := by
  by_contra hall
  push Not at hall
  have hnodup : (Suit.all.map fun suit => ({ suit, rank := r } : Card)).Nodup := by
    cases r <;> decide
  have hsub : (Suit.all.map fun suit => ({ suit, rank := r } : Card)).Subperm naturals := by
    refine List.subperm_of_subset hnodup fun c hc => ?_
    obtain ⟨suit, -, rfl⟩ := List.mem_map.mp hc
    exact hall suit
  obtain ⟨l, hperm, hl⟩ := hsub
  have hcount := (hl.map Card.rank).count_le r
  rw [(hperm.map Card.rank).count_eq, List.map_map] at hcount
  have hfour :
      (Suit.all.map (Card.rank ∘ fun suit => ({ suit, rank := r } : Card))).count r = 4 := by
    cases r <;> decide
  omega

/-- A rank occurs among cards as often as there are cards of it. -/
theorem count_map_rank_eq_length_filter (cards : List Card) (r : Rank) :
    (cards.map Card.rank).count r = (cards.filter fun c => c.rank = r).length := by
  rw [List.count, List.countP_map, List.countP_eq_length_filter]
  rfl

/-- Different cards have no rank more than four times. -/
theorem count_map_rank_le_four (hnodup : naturals.Nodup) (r : Rank) :
    (naturals.map Card.rank).count r ≤ 4 := by
  have hsub : (naturals.filter fun c => c.rank = r).Subperm
      (Suit.all.map fun suit => ({ suit, rank := r } : Card)) := by
    refine List.subperm_of_subset (hnodup.filter _) fun c hc => ?_
    have hr : c.rank = r := by simpa using (List.mem_filter.mp hc).2
    exact List.mem_map.mpr ⟨c.suit, Suit.mem_all _, by rw [← hr]⟩
  rw [count_map_rank_eq_length_filter]
  exact hsub.length_le

/-- Different cards can be completed with cards of given ranks as long as no rank is wanted more
than four times. -/
theorem exists_cards_append (extra : List Rank) (hnodup : naturals.Nodup)
    (hfour : ∀ r, (naturals.map Card.rank ++ extra).count r ≤ 4) :
    ∃ cards : List Card, cards.Nodup ∧ naturals ⊆ cards ∧
      (cards.map Card.rank).Perm (naturals.map Card.rank ++ extra) := by
  induction extra generalizing naturals with
  | nil =>
    rw [List.append_nil] at *
    exact ⟨naturals, hnodup, List.Subset.refl _, List.Perm.refl _⟩
  | cons r extra ih =>
    have hroom : (naturals.map Card.rank).count r < 4 := by
      have := hfour r
      rw [List.count_append, List.count_cons_self] at this
      omega
    obtain ⟨suit, hnew⟩ := exists_card_of_rank hroom
    have hmiddle : (naturals.map Card.rank ++ r :: extra).Perm
        (({ suit, rank := r } :: naturals).map Card.rank ++ extra) := List.perm_middle
    obtain ⟨cards, hcards, hsub, hperm⟩ := ih (List.nodup_cons.mpr ⟨hnew, hnodup⟩)
      fun r' => hmiddle.count_eq r' ▸ hfour r'
    exact ⟨cards, hcards, fun c hc => hsub (List.mem_cons_of_mem _ hc), hperm.trans hmiddle.symm⟩

/-! ### Hands with prescribed ranks -/

/-- Naturals whose ranks are wanted, in a hand that wants no rank more than four times, are part of
such a hand. -/
theorem exists_fullHand_of_ranks {ranks : List Rank} (hnodup : naturals.Nodup)
    (hsub : (naturals.map Card.rank).Subperm ranks) (hfour : ∀ r, ranks.count r ≤ 4)
    (hsize : ranks.length = handSize) :
    ∃ hand : FullHand, naturals ⊆ hand.cards ∧ hand.ranks.Perm ranks := by
  have hperm : (naturals.map Card.rank ++ ranks.diff (naturals.map Card.rank)).Perm ranks :=
    List.subperm_append_diff_self_of_count_le fun r _ => hsub.count_le r
  obtain ⟨cards, hcards, hkeep, hranks⟩ :=
    exists_cards_append (ranks.diff (naturals.map Card.rank)) hnodup
      fun r => hperm.count_eq r ▸ hfour r
  have hlength : cards.length = handSize := by
    have := (hranks.trans hperm).length_eq
    rw [List.length_map] at this
    rw [this, hsize]
  exact ⟨⟨cards, hlength, hcards⟩, hkeep, hranks.trans hperm⟩

/-- Naturals of one suit are part of the hand that has five wanted ranks in this suit. -/
theorem exists_fullHand_of_suit {suit : Suit} {ranks : List Rank}
    (hsuit : ∀ c ∈ naturals, c.suit = suit) (hsub : naturals.map Card.rank ⊆ ranks)
    (hnodup : ranks.Nodup) (hsize : ranks.length = handSize) :
    ∃ hand : FullHand, naturals ⊆ hand.cards ∧ hand.ranks = ranks ∧ hand.IsFlush := by
  have hinj : Function.Injective fun rank => ({ suit, rank } : Card) := by
    intro r r' h
    exact congrArg Card.rank h
  refine ⟨⟨ranks.map fun rank => { suit, rank }, ?_, ?_⟩, ?_, ?_, ?_⟩
  · rw [List.length_map, hsize]
  · exact hnodup.map hinj
  · intro c hc
    refine List.mem_map.mpr ⟨c.rank, hsub (List.mem_map_of_mem hc), ?_⟩
    rw [← hsuit c hc]
  · simp [FullHand.ranks, Function.comp_def]
  · intro a ha b hb
    obtain ⟨_, -, rfl⟩ := List.mem_map.mp ha
    obtain ⟨_, -, rfl⟩ := List.mem_map.mp hb
    rfl

/-- Different naturals of one suit have different ranks. -/
theorem nodup_map_rank_of_suit {suit : Suit} (hnodup : naturals.Nodup)
    (hsuit : ∀ c ∈ naturals, c.suit = suit) : (naturals.map Card.rank).Nodup := by
  refine hnodup.map_on fun a ha b hb hrank => ?_
  obtain ⟨suit', rank⟩ := a
  obtain ⟨suit'', rank'⟩ := b
  have ha := hsuit _ ha
  have hb := hsuit _ hb
  simp only at ha hb hrank
  rw [ha, hb, hrank]

/-! ### What naturals and wilds can become -/

/-- Some hand shows the value in which at most as many cards as there are wilds are not among the
naturals. -/
def Reaches (naturals : List Card) (wilds : Nat) (value : HandRank) : Prop :=
  ∃ hand : FullHand, hand.cards.countP (· ∉ naturals) ≤ wilds ∧
    hand.marks? value.category = some value.tiebreakers

/-- With more naturals and more wilds no value is lost. -/
theorem Reaches.mono {naturals' : List Card} {wilds' : Nat} {value : HandRank}
    (h : Reaches naturals wilds value) (hsub : naturals ⊆ naturals') (hle : wilds ≤ wilds') :
    Reaches naturals' wilds' value := by
  obtain ⟨hand, hcount, hmarks⟩ := h
  refine ⟨hand, ?_, hmarks⟩
  calc hand.cards.countP (· ∉ naturals')
      ≤ hand.cards.countP (· ∉ naturals) := by
        refine List.countP_mono_left fun c _ hc => ?_
        rw [decide_eq_true_eq] at hc ⊢
        exact fun hmem => hc (hsub hmem)
    _ ≤ wilds := hcount
    _ ≤ wilds' := hle

/-- A wild can stand for a natural card. -/
theorem Reaches.of_cons {card : Card} {value : HandRank}
    (h : Reaches (card :: naturals) wilds value) : Reaches naturals (wilds + 1) value := by
  obtain ⟨hand, hcount, hmarks⟩ := h
  refine ⟨hand, ?_, hmarks⟩
  have hsub : (hand.cards.filter (· ∉ naturals)).Subperm
      (card :: hand.cards.filter (· ∉ card :: naturals)) := by
    refine List.subperm_of_subset (hand.nodup.filter _) fun c hc => ?_
    simp only [List.mem_filter, List.mem_cons, decide_eq_true_eq, not_or] at hc ⊢
    tauto
  calc hand.cards.countP (· ∉ naturals)
      ≤ hand.cards.countP (· ∉ card :: naturals) + 1 := by
        rw [List.countP_eq_length_filter, List.countP_eq_length_filter]
        exact hsub.length_le
    _ ≤ wilds + 1 := Nat.succ_le_succ hcount

/-- Without wilds the values of the hands among the naturals are reached. -/
theorem reaches_zero_iff {value : HandRank} : Reaches naturals 0 value ↔
    ∃ hand : FullHand, hand.cards ⊆ naturals ∧
      hand.marks? value.category = some value.tiebreakers := by
  have hcount (hand : FullHand) :
      hand.cards.countP (· ∉ naturals) ≤ 0 ↔ hand.cards ⊆ naturals := by
    simp [List.countP_eq_zero, List.subset_def]
  simp only [Reaches, hcount]

/-- A hand consists of cards that are among the naturals and of cards that are not. -/
theorem FullHand.exists_split (hand : FullHand) (naturals : List Card) :
    ∃ kept new, (kept ++ new).Perm hand.cards ∧ kept ⊆ naturals ∧ (∀ c ∈ new, c ∉ naturals) ∧
      new.length = hand.cards.countP (· ∉ naturals) := by
  refine ⟨hand.cards.filter (· ∈ naturals), hand.cards.filter fun c => !decide (c ∈ naturals),
    List.filter_append_perm _ _, ?_, ?_, ?_⟩
  · intro c hc
    simpa using (List.mem_filter.mp hc).2
  · intro c hc
    simpa using (List.mem_filter.mp hc).2
  · rw [← List.countP_eq_length_filter]
    simp

/-- With five entries in all, the wilds suffice for a hand exactly when it keeps the naturals. -/
theorem countP_notMem_le_iff {hand : FullHand} (hnodup : naturals.Nodup)
    (hsize : naturals.length + wilds = handSize) :
    hand.cards.countP (· ∉ naturals) ≤ wilds ↔ naturals ⊆ hand.cards := by
  obtain ⟨kept, new, hperm, hkept, hnew, hcount⟩ := hand.exists_split naturals
  have hcards : (kept ++ new).Nodup := hperm.nodup_iff.mpr hand.nodup
  have hsub : kept.Subperm naturals :=
    List.subperm_of_subset (List.nodup_append.mp hcards).1 hkept
  have hsplit := hperm.length_eq
  rw [List.length_append, hand.length_eq] at hsplit
  rw [← hcount]
  constructor
  · intro hle c hc
    have hall := hsub.perm_of_length_le (by omega)
    exact hperm.subset (List.mem_append_left _ (hall.mem_iff.mpr hc))
  · intro hkeep
    have hall : naturals.Subperm kept := by
      refine List.subperm_of_subset hnodup fun c hc => ?_
      rcases List.mem_append.mp (hperm.mem_iff.mpr (hkeep hc)) with hmem | hmem
      · exact hmem
      · exact absurd hc (hnew c hmem)
    have := hall.length_le
    omega

end CaliforniaPoker
