import CaliforniaPoker.Proofs.Hand.Wilds

/-!
# The tiebreakers that categories admit

Every category goes with tiebreakers of one form: as many ranks as it needs, none of them twice, and
ranks of equal weight in descending order. This file shows that the value which the rules give a
hand without wilds has this form.

## Main definitions

* `IsRun`: the ranks of a straight in descending order.
* `Category.Admits`: the tiebreakers that hands of a category have.
* `Category.sizes?`: the sizes of the groups by which a category is recognised.

## Main results

* `isGrouping_iff_admits`: groups of a category are the tiebreakers that it admits.
* `FullHand.exists_isStraight_iff`: straights in terms of their ranks in descending order.
* `FullHand.ruledValue?_eq_some_iff`: the value of a hand is given by its marks in one category and
  by their absence in all higher ones.
* `FullHand.admits_of_ruledValue?`: the rules give a hand tiebreakers that its category admits.
-/

namespace CaliforniaPoker

/-! ### The form of values -/

/-- Each rank is one above the next, or they are the ace and the five to the two. -/
def IsRun (ranks : List Rank) : Prop :=
  ranks.IsChain (fun r r' => r.value = r'.value + 1) ∨ ranks = [.ace, .five, .four, .three, .two]

instance (ranks : List Rank) : Decidable (IsRun ranks) := inferInstanceAs (Decidable (_ ∨ _))

/-- Five descending ranks that are not those of a straight. -/
def IsBroken (ranks : List Rank) : Prop :=
  ranks.length = handSize ∧ ranks.Pairwise (fun r r' => r' < r) ∧ ¬ IsRun ranks

instance (ranks : List Rank) : Decidable (IsBroken ranks) := inferInstanceAs (Decidable (_ ∧ _))

example : ¬ IsBroken [.ace, .five, .four, .three, .two] := by decide

namespace Category

/-- The tiebreakers that hands of a category have. -/
def Admits : Category → List Rank → Prop
  | .royalFlush, [] => True
  | .straightFlush, [high] => Rank.five.value ≤ high.value ∧ high.value ≤ Rank.king.value
  | .fourOfAKind, [quads, kicker] => quads ≠ kicker
  | .fullHouse, [trips, pair] => trips ≠ pair
  | .flush, ranks => IsBroken ranks
  | .straight, [high] => Rank.five.value ≤ high.value
  | .threeOfAKind, [trips, kicker, last] => last < kicker ∧ trips ≠ kicker ∧ trips ≠ last
  | .twoPair, [high, low, kicker] => low < high ∧ kicker ≠ high ∧ kicker ≠ low
  | .onePair, [pair, kicker, second, last] =>
    second < kicker ∧ last < second ∧ pair ≠ kicker ∧ pair ≠ second ∧ pair ≠ last
  | .highCard, ranks => IsBroken ranks
  | _, _ => False

/-- The sizes of the groups of equal rank by which a category is recognised. -/
def sizes? : Category → Option (List Nat)
  | .fourOfAKind => some [4, 1]
  | .fullHouse => some [3, 2]
  | .threeOfAKind => some [3, 1, 1]
  | .twoPair => some [2, 2, 1]
  | .onePair => some [2, 1, 1, 1]
  | .highCard => some [1, 1, 1, 1, 1]
  | _ => none

variable {category category' : Category} {sizes : List Nat}

theorem isShape_of_sizes?_eq_some (h : category.sizes? = some sizes) : IsShape sizes := by
  have hall : ∀ category ∈ Category.all, ∀ sizes ∈ category.sizes?, IsShape sizes := by decide
  exact hall category category.mem_all sizes h

/-- Only one category is recognised by groups of given sizes. -/
theorem eq_of_sizes?_eq_some (h : category.sizes? = some sizes)
    (h' : category'.sizes? = some sizes) : category = category' := by
  have hall : ∀ category ∈ Category.all, ∀ category' ∈ Category.all, category.sizes? ≠ none →
      category.sizes? = category'.sizes? → category = category' := by decide
  refine hall category category.mem_all category' category'.mem_all ?_ (h.trans h'.symm)
  rw [h]
  exact Option.some_ne_none sizes

end Category

theorem Rank.two_le_value (r : Rank) : 2 ≤ r.value := by cases r <;> decide

theorem Rank.value_le_king (r : Rank) (h : r ≠ .ace) : r.value ≤ Rank.king.value := by
  cases r with
  | ace => exact absurd rfl h
  | _ => decide

/-! ### Groups -/

theorem isGrouping_iff {sizes : List Nat} {groups : List Rank} : IsGrouping sizes groups ↔
    groups.length = sizes.length ∧ groups.Nodup ∧
      (sizes.zip groups).IsChain fun g g' => g.1 = g'.1 → g'.2 < g.2 :=
  ⟨fun h => ⟨h.length_eq, h.nodup, h.descending⟩, fun h => ⟨h.1, h.2.1, h.2.2⟩⟩

/-- Where the groups are not all single cards, their ranks are the tiebreakers that a category
admits. -/
theorem isGrouping_iff_admits {category : Category} {sizes : List Nat} {groups : List Rank}
    (hsizes : category.sizes? = some sizes) (hpaired : category ≠ .highCard) :
    IsGrouping sizes groups ↔ category.Admits groups := by
  rw [isGrouping_iff]
  cases category with
  | highCard => exact absurd rfl hpaired
  | straight | flush | straightFlush | royalFlush => exact nomatch hsizes
  | fourOfAKind | fullHouse =>
    obtain rfl := Option.some.inj hsizes
    rcases groups with _ | ⟨a, _ | ⟨b, _ | ⟨c, groups⟩⟩⟩ <;> simp [Category.Admits]
  | threeOfAKind | twoPair =>
    obtain rfl := Option.some.inj hsizes
    rcases groups with _ | ⟨a, _ | ⟨b, _ | ⟨c, _ | ⟨d, groups⟩⟩⟩⟩ <;> simp [Category.Admits]
    grind [Rank.lt_iff]
  | onePair =>
    obtain rfl := Option.some.inj hsizes
    rcases groups with _ | ⟨a, _ | ⟨b, _ | ⟨c, _ | ⟨d, _ | ⟨e, groups⟩⟩⟩⟩⟩ <;>
      simp [Category.Admits]
    grind [Rank.lt_iff]

/-! ### Single cards -/

namespace FullHand

variable {hand hand' : FullHand} {category category' : Category} {groups groups' : List Rank}

theorem multiplicities_eq_singles_iff :
    multiplicities hand.ranks = [1, 1, 1, 1, 1] ↔ hand.ranks.Nodup := by
  constructor
  · intro hsingles
    refine List.nodup_iff_count_eq_one.mpr fun r hr => ?_
    have hcount : hand.ranks.count r ∈ multiplicities hand.ranks :=
      List.mem_map_of_mem (mem_byMultiplicity.mpr hr)
    simpa [hsingles] using hcount
  · intro hnodup
    have hlength : (byMultiplicity hand.ranks).length = 5 := by
      rw [(byMultiplicity_perm _).length_eq, hnodup.dedup, hand.length_ranks, handSize]
    refine List.eq_replicate_iff (n := 5) |>.mpr ⟨(List.length_map _).trans hlength, ?_⟩
    intro n hn
    obtain ⟨r, hr, rfl⟩ := List.mem_map.mp hn
    exact List.count_eq_one_of_mem hnodup (mem_byMultiplicity.mp hr)

theorem marks?_highCard_eq_some_iff : hand.marks? .highCard = some groups ↔
    hand.ranks.Nodup ∧ byMultiplicity hand.ranks = groups := by
  rw [marks?, groups?, ← multiplicities_eq_singles_iff]
  split_ifs with h <;> simp [h]

/-- A category is recognised by its groups if it has any. -/
theorem marks?_eq_groups? {sizes : List Nat} (h : category.sizes? = some sizes) :
    hand.marks? category = hand.groups? sizes := by
  cases category with
  | straight | flush | straightFlush | royalFlush => exact nomatch h
  | highCard | onePair | twoPair | threeOfAKind | fullHouse | fourOfAKind =>
    obtain rfl := Option.some.inj h
    rfl

/-- The cards of straights and flushes are of different ranks. -/
theorem nodup_ranks_of_marks? (h : hand.marks? category = some groups)
    (hsizes : category.sizes? = none) : hand.ranks.Nodup := by
  cases category with
  | royalFlush => exact (marks?_royalFlush_eq_some_iff.mp h).1.1.nodup_ranks
  | straightFlush => exact (marks?_straightFlush_eq_some_iff.mp h).1.nodup_ranks
  | flush => exact (marks?_flush_eq_some_iff.mp h).1.nodup_ranks
  | straight =>
    obtain ⟨high, hstraight, -⟩ := marks?_straight_eq_some_iff.mp h
    exact hstraight.nodup_ranks
  | highCard | onePair | twoPair | threeOfAKind | fullHouse | fourOfAKind => exact nomatch hsizes

/-- A hand shows the groups of one category only. -/
theorem eq_of_marks? {sizes sizes' : List Nat} (h : hand.marks? category = some groups)
    (h' : hand.marks? category' = some groups') (hsizes : category.sizes? = some sizes)
    (hsizes' : category'.sizes? = some sizes') : category' = category := by
  rw [marks?_eq_groups? hsizes, groups?] at h
  rw [marks?_eq_groups? hsizes', groups?] at h'
  split_ifs at h h' with heq' heq
  exact Category.eq_of_sizes?_eq_some (hsizes'.trans (by rw [← heq, heq'])) hsizes

/-- A hand with two cards of one rank shows the marks of one category only. -/
theorem eq_of_marks?_of_paired {sizes : List Nat} (h : hand.marks? category = some groups)
    (hsizes : category.sizes? = some sizes) (hpaired : category ≠ .highCard)
    (h' : hand.marks? category' = some groups') : category' = category := by
  cases hsizes' : category'.sizes? with
  | some sizes' => exact eq_of_marks? h h' hsizes hsizes'
  | none =>
    have hsingles := marks?_highCard_eq_some_iff.mpr ⟨nodup_ranks_of_marks? h' hsizes', rfl⟩
    exact absurd (eq_of_marks? hsingles h rfl hsizes) hpaired

/-- A hand of five different ranks shows no groups but single cards. -/
theorem eq_highCard_of_marks? {sizes : List Nat} (hnodup : hand.ranks.Nodup)
    (h : hand.marks? category = some groups) (hsizes : category.sizes? = some sizes) :
    category = .highCard :=
  eq_of_marks? (marks?_highCard_eq_some_iff.mpr ⟨hnodup, rfl⟩) h rfl hsizes

/-! ### Straights -/

theorem byMultiplicity_perm_ranks (h : hand.ranks.Nodup) :
    (byMultiplicity hand.ranks).Perm hand.ranks := by
  conv_rhs => rw [← h.dedup]
  exact byMultiplicity_perm hand.ranks

/-- Different ranks are those of a straight exactly when they make a run in descending order. -/
theorem exists_isStraight_iff (hnodup : hand.ranks.Nodup) :
    (∃ high, hand.IsStraight high) ↔ IsRun (byMultiplicity hand.ranks) := by
  have hperm := byMultiplicity_perm_ranks hnodup
  have hdescends := byMultiplicity_descends hnodup
  constructor
  · rintro ⟨high, hstraight⟩
    obtain ⟨window, hs, hwindow⟩ := isStraight_iff.mp hstraight
    have hruns : ∀ s ∈ straights, ∃ run ∈ [s.2, [.ace, .five, .four, .three, .two]],
        s.2.Perm run ∧ run.Pairwise (fun r r' => r' < r) ∧ IsRun run := by decide
    obtain ⟨run, -, hrun, hsorted, hisRun⟩ := hruns _ hs
    have heq := (hperm.trans (hwindow.trans hrun)).eq_of_pairwise' hdescends hsorted
    rwa [heq]
  · rintro (hchain | hwheel)
    · have hlength : (byMultiplicity hand.ranks).length = 5 :=
        hperm.length_eq.trans hand.length_ranks
      obtain ⟨a, rest, hrun⟩ := List.exists_of_length_succ _ hlength
      rw [hrun] at hchain hperm hlength
      obtain ⟨b, c, d, e, rfl⟩ := List.length_eq_four.mp (Nat.succ.inj hlength)
      simp only [List.isChain_cons_cons, List.IsChain.singleton, and_true] at hchain
      obtain ⟨hab, hbc, hcd, hde⟩ := hchain
      have hlow := e.two_le_value
      have hvalues : [a, b, c, d, e].map Rank.value = (List.range' (a.value - 4) 5).reverse := by
        simp only [List.map_cons, List.map_nil, List.range', List.reverse_cons, List.reverse_nil,
          List.nil_append, List.cons_append, List.cons.injEq, and_true]
        omega
      refine ⟨a, .inl ⟨by omega, ?_⟩⟩
      exact (hperm.symm.map _).trans (hvalues ▸ List.reverse_perm _)
    · rw [hwheel] at hperm
      exact ⟨.five, .inr ⟨rfl, hperm.symm.trans (by decide)⟩⟩

theorem isBroken_byMultiplicity_iff (hnodup : hand.ranks.Nodup) :
    IsBroken (byMultiplicity hand.ranks) ↔ ∀ high, ¬ hand.IsStraight high := by
  rw [IsBroken, ← exists_isStraight_iff hnodup, not_exists]
  have hlength := (byMultiplicity_perm_ranks hnodup).length_eq.trans hand.length_ranks
  simp only [hlength, byMultiplicity_descends hnodup, true_and]

theorem IsStraight.five_le_value {high : Rank} (h : hand.IsStraight high) :
    Rank.five.value ≤ high.value := by
  rcases h with ⟨hhigh, -⟩ | ⟨rfl, -⟩
  · exact Nat.le_of_succ_le hhigh
  · exact Nat.le_refl _

/-! ### The value of a hand -/

/-- The rules give the marks of a category if the hand shows no marks of a higher one. -/
theorem ruledValue?_eq_some_iff : hand.ruledValue? = some (category, groups) ↔
    hand.marks? category = some groups ∧
      ∀ category' groups', hand.marks? category' = some groups' →
        category'.code ≤ category.code :=
  findSome?_marks_eq_some_iff

theorem ruledValue?_congr (h : hand.cards.Perm hand'.cards) :
    hand.ruledValue? = hand'.ruledValue? := by
  simp only [ruledValue?, marks?_congr h]

/-! ### From hands to the form of their values -/

/-- The value that the rules give has the form of its category. -/
theorem admits_of_ruledValue? (h : hand.ruledValue? = some (category, groups)) :
    category.Admits groups := by
  obtain ⟨hmarks, hhighest⟩ := ruledValue?_eq_some_iff.mp h
  cases category with
  | royalFlush =>
    obtain ⟨-, rfl⟩ := marks?_royalFlush_eq_some_iff.mp hmarks
    trivial
  | straightFlush =>
    obtain ⟨hflush, high, hstraight, rfl⟩ := marks?_straightFlush_eq_some_iff.mp hmarks
    have hhigh : high ≠ .ace := by
      rintro rfl
      have hroyal := marks?_royalFlush_eq_some_iff.mpr ⟨⟨hflush, hstraight⟩, rfl⟩
      exact absurd (hhighest _ _ hroyal) (by decide)
    exact ⟨hstraight.five_le_value, high.value_le_king hhigh⟩
  | flush =>
    obtain ⟨hflush, rfl⟩ := marks?_flush_eq_some_iff.mp hmarks
    refine (isBroken_byMultiplicity_iff hflush.nodup_ranks).mpr fun high hstraight => ?_
    have hboth := marks?_straightFlush_eq_some_iff.mpr ⟨hflush, high, hstraight, rfl⟩
    exact absurd (hhighest _ _ hboth) (by decide)
  | straight =>
    obtain ⟨high, hstraight, rfl⟩ := marks?_straight_eq_some_iff.mp hmarks
    exact hstraight.five_le_value
  | highCard =>
    obtain ⟨hnodup, rfl⟩ := marks?_highCard_eq_some_iff.mp hmarks
    refine (isBroken_byMultiplicity_iff hnodup).mpr fun high hstraight => ?_
    have hfound := marks?_straight_eq_some_iff.mpr ⟨high, hstraight, rfl⟩
    exact absurd (hhighest _ _ hfound) (by decide)
  | onePair | twoPair | threeOfAKind | fullHouse | fourOfAKind =>
    obtain ⟨hgroups, -⟩ := (groups?_eq_some_iff (by decide)).mp hmarks
    exact (isGrouping_iff_admits rfl (by decide)).mp hgroups

end FullHand

end CaliforniaPoker
