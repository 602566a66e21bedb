import CaliforniaPoker.Proofs.Hand.GroupSearch

/-!
# The search for groups finds the greatest assignment

An assignment of ranks to the groups of a pattern is described here without the search: by the ranks
that it gives the groups, by the naturals that lie in them and by the cards that they lack. This file
shows that the search fails only if there is no assignment, and that otherwise it returns the
greatest one, whatever the pattern, the naturals and the wilds are.

## Main definitions

* `IsAssignment`: ranks for the groups that use up all naturals and all wilds.

## Main results

* `finds_start_iff_isAssignment`: the assignments are what the search can come to.
* `bestGrouping?_greatest`: the search returns the greatest assignment if there is any.
-/

namespace CaliforniaPoker

variable {ranks groups best : List Rank} {wilds : Nat} {sizes : List Nat}

/-- Different ranks for groups of the given sizes, descending among neighbouring groups of one size,
that use up the natural ranks and the wilds. -/
structure IsAssignment (ranks : List Rank) (wilds : Nat) (sizes : List Nat) (groups : List Rank) :
    Prop extends IsGrouping sizes groups where
  /-- No rank has more naturals than its group is large. -/
  room : ∀ g ∈ sizes.zip groups, ranks.count g.2 ≤ g.1
  /-- Every natural has a group of its rank. -/
  covered : ∀ r ∈ ranks, r ∈ groups
  /-- The cards that the groups lack are the wilds. -/
  lacking : ((sizes.zip groups).map fun g => g.1 - ranks.count g.2).sum = wilds

/-- Groups that have room for all naturals lack as many cards as there are wilds exactly when
naturals and wilds fill them. -/
theorem IsGrouping.sum_lacking_eq_iff (h : IsGrouping sizes groups)
    (hroom : ∀ g ∈ sizes.zip groups, ranks.count g.2 ≤ g.1) (hcovered : ∀ r ∈ ranks, r ∈ groups) :
    ((sizes.zip groups).map fun g => g.1 - ranks.count g.2).sum = wilds ↔
      ranks.length + wilds = sizes.sum := by
  have hheld : (groups.map ranks.count).sum = ranks.length := by
    rw [sum_map_count h.nodup, List.countP_eq_length]
    simpa using hcovered
  have hsizes := h.sum_count_add_sum_lacking hroom
  omega

/-- The assignments are what the search can come to from its start. -/
theorem finds_start_iff_isAssignment : GroupSearch.Finds (fun r => ranks.count r) sizes
      { uncovered := ranks.length, wilds, previous := none, taken := [] } groups ↔
    IsAssignment ranks wilds sizes groups := by
  rw [finds_start_iff]
  constructor
  · rintro ⟨hgroups, hsub, hsum⟩
    obtain ⟨hcovered, hroom⟩ := hgroups.subperm_spread_iff.mp hsub
    exact ⟨hgroups, hroom, hcovered, (hgroups.sum_lacking_eq_iff hroom hcovered).mpr hsum⟩
  · rintro ⟨hgroups, hroom, hcovered, hlacking⟩
    exact ⟨hgroups, hgroups.subperm_spread_iff.mpr ⟨hcovered, hroom⟩,
      (hgroups.sum_lacking_eq_iff hroom hcovered).mp hlacking⟩

theorem isAssignment_of_bestGrouping? (h : bestGrouping? ranks wilds sizes = some best) :
    IsAssignment ranks wilds sizes best :=
  finds_start_iff_isAssignment.mp (GroupSearch.finds_of_run h)

theorem IsAssignment.exists_bestGrouping? (h : IsAssignment ranks wilds sizes groups) :
    ∃ best, bestGrouping? ranks wilds sizes = some best ∧ (compare groups best).isLE :=
  GroupSearch.exists_run_of_finds (finds_start_iff_isAssignment.mpr h)

/-- **The search for groups is complete and returns the greatest assignment.** For all natural
ranks, any number of wilds and every pattern, the search succeeds exactly when there are different
ranks for the groups, descending among neighbouring groups of one size, such that no rank has more
naturals than its group is large, every natural has a group of its rank, and the groups lack as many
cards as there are wilds. What it returns is such a list, and none is lexicographically above it; no
other list has this property. -/
theorem bestGrouping?_greatest (ranks : List Rank) (wilds : Nat) (sizes : List Nat) :
    ((∃ best, bestGrouping? ranks wilds sizes = some best) ↔
      ∃ groups, IsAssignment ranks wilds sizes groups) ∧
    ∀ best, bestGrouping? ranks wilds sizes = some best ↔ IsAssignment ranks wilds sizes best ∧
      ∀ groups, IsAssignment ranks wilds sizes groups → (compare groups best).isLE := by
  have hgreatest {best : List Rank} (h : bestGrouping? ranks wilds sizes = some best) :
      ∀ groups, IsAssignment ranks wilds sizes groups → (compare groups best).isLE := by
    intro groups hgroups
    obtain ⟨best', hbest', hle⟩ := hgroups.exists_bestGrouping?
    rw [h, Option.some.injEq] at hbest'
    rwa [hbest']
  refine ⟨⟨fun ⟨best, h⟩ => ⟨best, isAssignment_of_bestGrouping? h⟩, fun ⟨groups, hgroups⟩ => ?_⟩,
    fun best => ⟨fun h => ⟨isAssignment_of_bestGrouping? h, hgreatest h⟩, ?_⟩⟩
  · obtain ⟨best, hbest, -⟩ := hgroups.exists_bestGrouping?
    exact ⟨best, hbest⟩
  · rintro ⟨hassignment, habove⟩
    obtain ⟨best', hbest', hle⟩ := hassignment.exists_bestGrouping?
    -- what is returned is an assignment as well, so that each of the two is not above the other
    have hge := habove best' (isAssignment_of_bestGrouping? hbest')
    have heq : best = best' := Std.LawfulEqOrd.eq_of_compare (Std.OrientedCmp.isLE_antisymm hle hge)
    rw [hbest', heq]

/-- Two aces, a king and two wilds make aces over kings and nothing greater; three different ranks
and two wilds make no full house. -/
theorem bestGrouping?_greatest_aces_over_kings :
    IsAssignment [.ace, .king, .ace] 2 [3, 2] [.ace, .king] ∧
      (∀ groups, IsAssignment [.ace, .king, .ace] 2 [3, 2] groups →
        (compare groups [.ace, .king]).isLE) ∧
      ¬ ∃ groups, IsAssignment [.ace, .king, .queen] 2 [3, 2] groups := by
  obtain ⟨-, hbest⟩ := bestGrouping?_greatest [.ace, .king, .ace] 2 [3, 2]
  obtain ⟨hexists, -⟩ := bestGrouping?_greatest [.ace, .king, .queen] 2 [3, 2]
  obtain ⟨hassignment, hgreatest⟩ := (hbest [.ace, .king]).mp rfl
  refine ⟨hassignment, hgreatest, hexists.not.mp ?_⟩
  rintro ⟨best, h⟩
  exact nomatch (rfl : bestGrouping? [.ace, .king, .queen] 2 [3, 2] = none).symm.trans h

end CaliforniaPoker
