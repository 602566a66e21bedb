import CaliforniaPoker.Proofs.Hand.Completion
import CaliforniaPoker.Proofs.Hand.Multiplicity
import CaliforniaPoker.Proofs.Hand.StraightSearch

/-!
# The marks of hands

What it means that a hand shows the marks of a category, in the terms in which the evaluation looks
for them: groupings of its ranks, one suit for its cards, one of the ten straights.

## Main definitions

* `IsShape`: the multiplicities that five cards can have.

## Main results

* `IsShape.eq`, `FullHand.isShape_multiplicities`: five cards have one of six shapes.
* `FullHand.exists_marks`: every hand shows the marks of some category.
* `FullHand.marks?_eq_of_perm_ranks`: the marks depend on the ranks and on the presence of a flush.
* `FullHand.marks?_congr`: the order of the cards does not matter.
-/

namespace CaliforniaPoker

/-! ### Shapes of hands -/

/-- Sizes of groups that make up a hand: positive, descending, at most four and five in all. -/
def IsShape (sizes : List Nat) : Prop :=
  0 ∉ sizes ∧ sizes.Pairwise (· ≥ ·) ∧ (∀ n ∈ sizes, n ≤ 4) ∧ sizes.sum = handSize

instance (sizes : List Nat) : Decidable (IsShape sizes) := inferInstanceAs (Decidable (_ ∧ _))

/-- There are six shapes. -/
theorem IsShape.eq {sizes : List Nat} (h : IsShape sizes) :
    sizes = [4, 1] ∨ sizes = [3, 2] ∨ sizes = [3, 1, 1] ∨ sizes = [2, 2, 1] ∨
      sizes = [2, 1, 1, 1] ∨ sizes = [1, 1, 1, 1, 1] := by
  obtain ⟨hpos, hdesc, hfour, hsum⟩ := h
  rw [handSize] at hsum
  rcases sizes with _ | ⟨a, _ | ⟨b, _ | ⟨c, _ | ⟨d, _ | ⟨e, _ | ⟨f, sizes⟩⟩⟩⟩⟩⟩
  all_goals
    simp only [List.mem_cons, List.not_mem_nil, not_or, List.pairwise_cons, forall_eq_or_imp,
      List.sum_cons, List.sum_nil] at hpos hdesc hfour hsum
  · omega
  · omega
  · have : a = 4 ∧ b = 1 ∨ a = 3 ∧ b = 2 := by omega
    rcases this with ⟨rfl, rfl⟩ | ⟨rfl, rfl⟩ <;> simp
  · have : a = 3 ∧ b = 1 ∧ c = 1 ∨ a = 2 ∧ b = 2 ∧ c = 1 := by omega
    rcases this with ⟨rfl, rfl, rfl⟩ | ⟨rfl, rfl, rfl⟩ <;> simp
  · obtain ⟨rfl, rfl, rfl, rfl⟩ : a = 2 ∧ b = 1 ∧ c = 1 ∧ d = 1 := by omega
    simp
  · obtain ⟨rfl, rfl, rfl, rfl, rfl⟩ : a = 1 ∧ b = 1 ∧ c = 1 ∧ d = 1 ∧ e = 1 := by omega
    simp
  · omega

namespace FullHand

variable {hand : FullHand}

theorem length_ranks (hand : FullHand) : hand.ranks.length = handSize := by
  rw [ranks, List.length_map, hand.length_eq]

/-- The multiplicities of a hand are a shape. -/
theorem isShape_multiplicities (hand : FullHand) : IsShape (multiplicities hand.ranks) := by
  refine ⟨?_, ?_, ?_, ?_⟩
  · intro hzero
    obtain ⟨r, hr, hcount⟩ := List.mem_map.mp hzero
    exact List.count_eq_zero.mp hcount (mem_byMultiplicity.mp hr)
  · rw [multiplicities, List.pairwise_map]
    refine (byMultiplicity_pairwise hand.ranks).imp fun h => ?_
    simp only [Precedes] at h
    omega
  · intro n hn
    obtain ⟨r, -, rfl⟩ := List.mem_map.mp hn
    exact count_map_rank_le_four hand.nodup r
  · have hgroups := isGrouping_byMultiplicity hand.ranks
    rw [← hgroups.length_spread, ← (perm_spread_byMultiplicity hand.ranks).length_eq,
      hand.length_ranks]

theorem groups?_eq_some_iff {sizes : List Nat} {groups : List Rank} (hshape : IsShape sizes) :
    hand.groups? sizes = some groups ↔
      IsGrouping sizes groups ∧ hand.ranks.Perm (spread (sizes.zip groups)) := by
  rw [← multiplicities_eq_iff hshape.1 hshape.2.1, groups?]
  split_ifs with h <;> simp [h]

/-- Every hand shows the marks of some category. -/
theorem exists_marks (hand : FullHand) : ∃ category groups, hand.marks? category = some groups := by
  have hself : hand.groups? (multiplicities hand.ranks) = some (byMultiplicity hand.ranks) :=
    if_pos rfl
  rcases (isShape_multiplicities hand).eq with h | h | h | h | h | h <;> rw [h] at hself
  · exact ⟨.fourOfAKind, _, hself⟩
  · exact ⟨.fullHouse, _, hself⟩
  · exact ⟨.threeOfAKind, _, hself⟩
  · exact ⟨.twoPair, _, hself⟩
  · exact ⟨.onePair, _, hself⟩
  · exact ⟨.highCard, _, hself⟩

end FullHand

/-! ### Flushes and straights -/

namespace FullHand

variable {hand : FullHand}

theorem IsFlush.exists_suit (h : hand.IsFlush) : ∃ suit, ∀ c ∈ hand.cards, c.suit = suit := by
  cases hcards : hand.cards with
  | nil =>
    have := hand.length_eq
    rw [hcards] at this
    exact absurd this (by decide)
  | cons a rest =>
    refine ⟨a.suit, fun c hc => h c ?_ a ?_⟩
    · rwa [hcards]
    · rw [hcards]
      exact List.mem_cons_self

theorem IsFlush.nodup_ranks (h : hand.IsFlush) : hand.ranks.Nodup := by
  obtain ⟨suit, hsuit⟩ := h.exists_suit
  exact nodup_map_rank_of_suit hand.nodup hsuit

theorem marks?_flush_eq_some_iff {groups : List Rank} : hand.marks? .flush = some groups ↔
    hand.IsFlush ∧ byMultiplicity hand.ranks = groups := by
  rw [marks?]
  split_ifs with h <;> simp [h]

theorem marks?_straight_eq_some_iff {groups : List Rank} : hand.marks? .straight = some groups ↔
    ∃ high, hand.IsStraight high ∧ [high] = groups := by
  rw [marks?, Option.map_eq_some_iff]
  simp only [straightHigh?_eq_some_iff]

theorem marks?_straightFlush_eq_some_iff {groups : List Rank} :
    hand.marks? .straightFlush = some groups ↔
      hand.IsFlush ∧ ∃ high, hand.IsStraight high ∧ [high] = groups := by
  rw [marks?, ← marks?_straight_eq_some_iff, marks?]
  split_ifs with h <;> simp [h]

theorem marks?_royalFlush_eq_some_iff {groups : List Rank} :
    hand.marks? .royalFlush = some groups ↔
      (hand.IsFlush ∧ hand.IsStraight .ace) ∧ [] = groups := by
  rw [marks?]
  split_ifs with h <;> simp [h]

end FullHand

/-! ### The order of the cards -/

/-- The order of the ranks does not matter for their order by multiplicity. -/
theorem byMultiplicity_congr {ranks ranks' : List Rank} (h : ranks.Perm ranks') :
    byMultiplicity ranks = byMultiplicity ranks' := by
  refine byMultiplicity_eq (nodup_byMultiplicity ranks') (fun r => ?_) ?_
  · rw [mem_byMultiplicity, h.mem_iff]
  · refine (byMultiplicity_pairwise ranks').imp fun hprec => ?_
    rwa [Precedes, h.count_eq, h.count_eq]

theorem multiplicities_congr {ranks ranks' : List Rank} (h : ranks.Perm ranks') :
    multiplicities ranks = multiplicities ranks' := by
  rw [multiplicities, multiplicities, byMultiplicity_congr h]
  exact List.map_congr_left fun r _ => h.count_eq r

namespace FullHand

variable {hand hand' : FullHand}

theorem isFlush_congr (h : hand.cards.Perm hand'.cards) : hand.IsFlush ↔ hand'.IsFlush := by
  simp only [IsFlush, h.mem_iff]

theorem isStraight_congr (h : hand.ranks.Perm hand'.ranks) (high : Rank) :
    hand.IsStraight high ↔ hand'.IsStraight high := by
  simp only [isStraight_iff]
  constructor
  · rintro ⟨window, hs, hperm⟩
    exact ⟨window, hs, h.symm.trans hperm⟩
  · rintro ⟨window, hs, hperm⟩
    exact ⟨window, hs, h.trans hperm⟩

/-- The marks of a hand depend on its ranks and on whether its cards are of one suit. -/
theorem marks?_eq_of_perm_ranks (hranks : hand.ranks.Perm hand'.ranks)
    (hflush : hand.IsFlush ↔ hand'.IsFlush) (category : Category) :
    hand.marks? category = hand'.marks? category := by
  have hgroups (sizes : List Nat) : hand.groups? sizes = hand'.groups? sizes := by
    rw [groups?, groups?, multiplicities_congr hranks, byMultiplicity_congr hranks]
  have hhigh : hand.straightHigh? = hand'.straightHigh? := by
    ext high
    rw [straightHigh?_eq_some_iff, straightHigh?_eq_some_iff, isStraight_congr hranks]
  cases category <;>
    simp only [marks?, hflush, isStraight_congr hranks, hgroups, hhigh, byMultiplicity_congr hranks]

/-- Hands with the same cards show the same marks. -/
theorem marks?_congr (h : hand.cards.Perm hand'.cards) (category : Category) :
    hand.marks? category = hand'.marks? category :=
  marks?_eq_of_perm_ranks (h.map _) (isFlush_congr h) category

end FullHand

end CaliforniaPoker
