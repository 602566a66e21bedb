import CaliforniaPoker.Exchange
import CaliforniaPoker.Proofs.Discard

/-!
# The exchange loses no card

An exchange takes place exactly when both pools have eight cards. Each player then holds, by
ascending deck id, the cards that it kept and those that the other one handed over. A card that is
there several times is moved as often as it is handed over, so that both players together hold the
cards that they were dealt.

## Main definitions

* `IsExchangedPool`: what a player holds after an exchange.

## Main results

* `Card.sortById_eq_iff`: cards are sorted into the only ascending list of them.
* `split_of_length_eq`, `split_eq_error_iff`: when a pool is split, and into what.
* `exchange_eq_ok_iff`, `exchange_eq_error_iff`: when pools are exchanged, and what comes of it.
* `exchange_perm`: both players together hold the cards that they were dealt.
* `exchange_conserves`: the exchange loses and duplicates nothing.
-/

namespace CaliforniaPoker

variable {first second firstFinal secondFinal pool : List Card}
  {firstDiscards secondDiscards discards : DiscardChoice} {e : GameError}

/-! ### The order of the deck -/

theorem Card.id_injective : Function.Injective Card.id := by
  intro a b h
  have hread : ofId a.id = ofId b.id := congrArg ofId h
  rw [ofId_id, ofId_id] at hread
  exact Except.ok.inj hread

theorem Card.sortById_perm (cards : List Card) : (Card.sortById cards).Perm cards :=
  List.mergeSort_perm _ _

theorem Card.sortById_pairwise (cards : List Card) :
    (sortById cards).Pairwise fun a b => a.id ≤ b.id := by
  have hsorted : (sortById cards).Pairwise fun a b => decide (a.id ≤ b.id) = true := by
    refine List.pairwise_mergeSort (fun a b c hab hbc => ?_) (fun a b => ?_) cards
    · rw [decide_eq_true_iff] at hab hbc ⊢
      exact hab.trans hbc
    · rw [Bool.or_eq_true, decide_eq_true_iff, decide_eq_true_iff]
      exact le_total a.id b.id
  exact hsorted.imp of_decide_eq_true

/-- Cards are sorted into the only ascending list of them. -/
theorem Card.sortById_eq_iff {cards sorted : List Card} : sortById cards = sorted ↔
    sorted.Pairwise (fun a b => a.id ≤ b.id) ∧ sorted.Perm cards := by
  constructor
  · rintro rfl
    exact ⟨sortById_pairwise cards, sortById_perm cards⟩
  · rintro ⟨hascending, hperm⟩
    refine List.Perm.eq_of_pairwise (fun a b _ _ hle hge => ?_) (sortById_pairwise cards)
      hascending ((sortById_perm cards).trans hperm.symm)
    exact id_injective (le_antisymm hle hge)

/-- The same cards in another order are sorted into the same list. -/
theorem Card.sortById_eq_of_perm {cards cards' : List Card} (h : cards.Perm cards') :
    sortById cards = sortById cards' :=
  sortById_eq_iff.mpr ⟨sortById_pairwise cards', (sortById_perm cards').trans h.symm⟩

/-! ### Splitting -/

theorem split_of_length_eq (hpool : pool.length = poolSize) :
    split discards pool = .ok (discards.kept pool, discards.discarded pool) :=
  if_neg (not_not.mpr hpool)

theorem split_of_length_ne (hpool : pool.length ≠ poolSize) :
    split discards pool = .error (.invalidPoolSize poolSize pool.length) :=
  if_pos hpool

theorem split_eq_error_iff : split discards pool = .error e ↔
    pool.length ≠ poolSize ∧ e = .invalidPoolSize poolSize pool.length := by
  by_cases hpool : pool.length = poolSize
  · simp [split_of_length_eq hpool, hpool]
  · simp [split_of_length_ne hpool, hpool, eq_comm]

/-! ### Exchanging -/

/-- Two pools are exchanged exactly when both are of eight cards. Then each player holds, by
ascending deck id, what it kept and what the other one handed over. -/
theorem exchange_eq_ok_iff :
    exchange first firstDiscards second secondDiscards = .ok (firstFinal, secondFinal) ↔
      (first.length = poolSize ∧ firstFinal =
        Card.sortById (firstDiscards.kept first ++ secondDiscards.discarded second)) ∧
      (second.length = poolSize ∧ secondFinal =
        Card.sortById (secondDiscards.kept second ++ firstDiscards.discarded first)) := by
  rw [exchange]
  by_cases hfirst : first.length = poolSize
  · rw [split_of_length_eq hfirst]
    by_cases hsecond : second.length = poolSize
    · simp [split_of_length_eq hsecond, hfirst, hsecond, bind, Except.bind, pure, Except.pure,
        eq_comm]
    · simp [split_of_length_ne hsecond, hsecond, bind, Except.bind]
  · simp [split_of_length_ne hfirst, hfirst, bind, Except.bind]

/-- An exchange is refused for the size of the first pool, or else for that of the second. -/
theorem exchange_eq_error_iff : exchange first firstDiscards second secondDiscards = .error e ↔
    first.length ≠ poolSize ∧ e = .invalidPoolSize poolSize first.length ∨
      first.length = poolSize ∧ second.length ≠ poolSize ∧
        e = .invalidPoolSize poolSize second.length := by
  rw [exchange]
  by_cases hfirst : first.length = poolSize
  · rw [split_of_length_eq hfirst]
    by_cases hsecond : second.length = poolSize
    · simp [split_of_length_eq hsecond, hfirst, hsecond, bind, Except.bind, pure, Except.pure]
    · simp [split_of_length_ne hsecond, hfirst, hsecond, bind, Except.bind, eq_comm]
  · simp [split_of_length_ne hfirst, hfirst, bind, Except.bind, eq_comm]

/-- Two pools of eight cards are exchanged whatever the discards. -/
theorem exists_exchange (firstDiscards secondDiscards : DiscardChoice)
    (hfirst : first.length = poolSize) (hsecond : second.length = poolSize) :
    ∃ firstFinal secondFinal,
      exchange first firstDiscards second secondDiscards = .ok (firstFinal, secondFinal) ∧
        firstFinal.Perm (firstDiscards.kept first ++ secondDiscards.discarded second) ∧
        secondFinal.Perm (secondDiscards.kept second ++ firstDiscards.discarded first) :=
  ⟨_, _, exchange_eq_ok_iff.mpr ⟨⟨hfirst, rfl⟩, hsecond, rfl⟩, Card.sortById_perm _,
    Card.sortById_perm _⟩

/-- A player that receives four cards for those that it hands over holds eight cards again. -/
theorem length_of_perm_kept_append {own received final : List Card} (hown : own.length = poolSize)
    (hreceived : received.length = discardSize)
    (hperm : final.Perm (discards.kept own ++ received)) : final.length = poolSize := by
  rw [hperm.length_eq, List.length_append, discards.length_kept hown, hreceived]
  rfl

/-- When each player holds what it kept and what the other one handed over, both together hold the
cards that they were dealt. -/
theorem exchange_perm
    (hfirst : firstFinal.Perm (firstDiscards.kept first ++ secondDiscards.discarded second))
    (hsecond : secondFinal.Perm (secondDiscards.kept second ++ firstDiscards.discarded first)) :
    (firstFinal ++ secondFinal).Perm (first ++ second) := by
  refine List.perm_iff_count.mpr fun c => ?_
  have hkept := (firstDiscards.kept_append_discarded_perm first).count_eq c
  have hkept' := (secondDiscards.kept_append_discarded_perm second).count_eq c
  have hcount := hfirst.count_eq c
  have hcount' := hsecond.count_eq c
  rw [List.count_append] at hkept hkept' hcount hcount' ⊢
  rw [List.count_append]
  omega

theorem perm_of_exchange_eq_ok
    (h : exchange first firstDiscards second secondDiscards = .ok (firstFinal, secondFinal)) :
    (firstFinal ++ secondFinal).Perm (first ++ second) := by
  obtain ⟨⟨-, rfl⟩, -, rfl⟩ := exchange_eq_ok_iff.mp h
  exact exchange_perm (Card.sortById_perm _) (Card.sortById_perm _)

/-- What a player holds after an exchange: by ascending deck id, the four cards of its own pool
outside its discards and the four cards of the other pool at the discards of the other player. -/
structure IsExchangedPool (own : List Card) (discards : DiscardChoice) (other : List Card)
    (otherDiscards : DiscardChoice) (final : List Card) : Prop where
  ascending : final.Pairwise fun a b => a.id ≤ b.id
  exists_perm : ∃ kept received,
    IsChoice own ((List.range 8).filter (· ∉ discards.indices)) kept ∧ kept.length = 4 ∧
      IsChoice other otherDiscards.indices received ∧ received.length = 4 ∧
      final.Perm (kept ++ received)

theorem IsExchangedPool.length_eq {own other final : List Card} {otherDiscards : DiscardChoice}
    (h : IsExchangedPool own discards other otherDiscards final) : final.length = 8 := by
  obtain ⟨kept, received, -, hkept, -, hreceived, hperm⟩ := h.exists_perm
  rw [hperm.length_eq, List.length_append, hkept, hreceived]

theorem isExchangedPool_sortById (discards otherDiscards : DiscardChoice) {own other : List Card}
    (hown : own.length = poolSize) (hother : other.length = poolSize) :
    IsExchangedPool own discards other otherDiscards
      (Card.sortById (discards.kept own ++ otherDiscards.discarded other)) where
  ascending := Card.sortById_pairwise _
  exists_perm := by
    refine ⟨discards.kept own, otherDiscards.discarded other, ?_, discards.length_kept hown,
      otherDiscards.isChoice_discarded hother, otherDiscards.length_discarded hother,
      Card.sortById_perm _⟩
    have hkept := discards.isChoice_kept hown
    rwa [discards.keepIndices_eq] at hkept

/-- **The exchange loses and duplicates nothing.** It is refused for the size of the first pool, or
else for that of the second; two pools of eight cards are exchanged. Each player then holds eight
cards, those of its own pool outside its discards and those of the other pool at the discards of the
other player, and both together hold the sixteen cards that they were dealt. A pool of eight cards
is split into its cards outside a discard set and those at it, both in the order of the pool. -/
theorem exchange_conserves (first second : List Card)
    (firstDiscards secondDiscards : DiscardChoice) :
    (∀ e, exchange first firstDiscards second secondDiscards = .error e ↔
      first.length ≠ 8 ∧ e = .invalidPoolSize 8 first.length ∨
        first.length = 8 ∧ second.length ≠ 8 ∧ e = .invalidPoolSize 8 second.length) ∧
    (first.length = 8 → second.length = 8 → ∃ firstFinal secondFinal,
      exchange first firstDiscards second secondDiscards = .ok (firstFinal, secondFinal) ∧
        IsExchangedPool first firstDiscards second secondDiscards firstFinal ∧
        IsExchangedPool second secondDiscards first firstDiscards secondFinal ∧
        firstFinal.length = 8 ∧ secondFinal.length = 8 ∧
        (firstFinal ++ secondFinal).Perm (first ++ second)) ∧
    ∀ (discards : DiscardChoice) (pool : List Card),
      (∀ e, split discards pool = .error e ↔
        pool.length ≠ 8 ∧ e = .invalidPoolSize 8 pool.length) ∧
      (pool.length = 8 → ∃ kept out, split discards pool = .ok (kept, out) ∧
        IsChoice pool ((List.range 8).filter (· ∉ discards.indices)) kept ∧ kept.Sublist pool ∧
        IsChoice pool discards.indices out ∧ out.Sublist pool ∧ (kept ++ out).Perm pool) := by
  refine ⟨fun e => exchange_eq_error_iff, fun hfirst hsecond => ?_, fun discards pool =>
    ⟨fun e => split_eq_error_iff, fun hpool => ?_⟩⟩
  · have hfirstPool := isExchangedPool_sortById firstDiscards secondDiscards hfirst hsecond
    have hsecondPool := isExchangedPool_sortById secondDiscards firstDiscards hsecond hfirst
    exact ⟨_, _, exchange_eq_ok_iff.mpr ⟨⟨hfirst, rfl⟩, hsecond, rfl⟩, hfirstPool, hsecondPool,
      hfirstPool.length_eq, hsecondPool.length_eq,
      perm_of_exchange_eq_ok (exchange_eq_ok_iff.mpr ⟨⟨hfirst, rfl⟩, hsecond, rfl⟩)⟩
  · have hkept := discards.isChoice_kept hpool
    have hout := discards.isChoice_discarded hpool
    rw [discards.keepIndices_eq] at hkept
    exact ⟨_, _, split_of_length_eq hpool, hkept, hkept.sublist, hout, hout.sublist,
      discards.kept_append_discarded_perm pool⟩

/-- A card that two players hold three times is handed over with the others, and is there three
times afterwards. -/
theorem exchange_conserves_repeated :
    ∃ firstFinal secondFinal,
      exchange [⟨.spades, .nine⟩, ⟨.spades, .nine⟩, ⟨.hearts, .two⟩, ⟨.hearts, .three⟩,
          ⟨.hearts, .four⟩, ⟨.hearts, .five⟩, ⟨.hearts, .six⟩, ⟨.hearts, .seven⟩] .lowest
        [⟨.clubs, .ace⟩, ⟨.clubs, .two⟩, ⟨.clubs, .three⟩, ⟨.clubs, .four⟩, ⟨.clubs, .five⟩,
          ⟨.clubs, .six⟩, ⟨.clubs, .seven⟩, ⟨.spades, .nine⟩] .lowest =
          .ok (firstFinal, secondFinal) ∧
        firstFinal.length = 8 ∧ secondFinal.length = 8 ∧
        firstFinal.count ⟨.spades, .nine⟩ + secondFinal.count ⟨.spades, .nine⟩ = 3 := by
  obtain ⟨firstFinal, secondFinal, hok, -, -, hfirst, hsecond, hperm⟩ :=
    (exchange_conserves [⟨.spades, .nine⟩, ⟨.spades, .nine⟩, ⟨.hearts, .two⟩, ⟨.hearts, .three⟩,
        ⟨.hearts, .four⟩, ⟨.hearts, .five⟩, ⟨.hearts, .six⟩, ⟨.hearts, .seven⟩]
      [⟨.clubs, .ace⟩, ⟨.clubs, .two⟩, ⟨.clubs, .three⟩, ⟨.clubs, .four⟩, ⟨.clubs, .five⟩,
        ⟨.clubs, .six⟩, ⟨.clubs, .seven⟩, ⟨.spades, .nine⟩] .lowest .lowest).2.1 rfl rfl
  refine ⟨firstFinal, secondFinal, hok, hfirst, hsecond, ?_⟩
  rw [← List.count_append, hperm.count_eq]
  decide

end CaliforniaPoker
