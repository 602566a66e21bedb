import CaliforniaPoker.KeepScore
import CaliforniaPoker.Proofs.Hand.Completion
import Mathlib.Algebra.BigOperators.Group.List.Lemmas
import Mathlib.Data.List.Count
import Mathlib.Data.List.SplitBy

/-!
# The parts of a score

A score adds up bonuses for groups of equal rank, for cards of one suit and for straight draws, and
the weighted height of the cards. The groups limit the other bonuses: cards of one suit differ in
rank, and so do the cards of a straight draw, so that neither can be more than there are different
ranks.

## Main results

* `sum_groupSizes`, `mem_groupSizes_iff`: the groups that some values form.
* `countP_suit_le`, `straightPotential_le`: no more cards of one suit, and no longer straight draws,
  than there are different ranks.
* `groupBonus_cases`: the bonus for the groups of four values.
* `keepScore_cases`: under the default weights four cards with exactly three of one rank score more
  than any others.
-/

namespace CaliforniaPoker

variable {values : List Nat} {cards : List Card}

/-! ### Different values -/

theorem nodup_eraseDups (values : List Nat) : values.eraseDups.Nodup := by
  induction hlength : values.length using Nat.strong_induction_on generalizing values with
  | _ length ih =>
    cases values with
    | nil => simp
    | cons v rest =>
      have hrest := List.length_filter_le (fun v' => !v' == v) rest
      rw [List.length_cons] at hlength
      rw [List.eraseDups_cons, List.nodup_cons]
      refine ⟨?_, ih _ (by omega) _ rfl⟩
      simp

theorem distinctDescending_perm (values : List Nat) :
    (distinctDescending values).Perm values.eraseDups := List.mergeSort_perm _ _

theorem mem_distinctDescending {v : Nat} : v ∈ distinctDescending values ↔ v ∈ values := by
  rw [(distinctDescending_perm values).mem_iff, List.mem_eraseDups]

theorem distinctDescending_pairwise (values : List Nat) :
    (distinctDescending values).Pairwise (· > ·) := by
  have hsorted : (distinctDescending values).Pairwise (· ≥ ·) := List.pairwise_mergeSort' (· ≥ ·) _
  have hnodup := (distinctDescending_perm values).nodup_iff.mpr (nodup_eraseDups values)
  exact (hsorted.and hnodup).imp fun h => lt_of_le_of_ne h.1 h.2.symm

/-- Different values of a list are no more than all its different values. -/
theorem length_le_distinctDescending {part : List Nat} (hnodup : part.Nodup)
    (hsub : ∀ v ∈ part, v ∈ values) : part.length ≤ (distinctDescending values).length := by
  refine (List.subperm_of_subset hnodup fun v hv => ?_).length_le
  exact mem_distinctDescending.mpr (hsub v hv)

theorem foldl_max_le_iff {xs : List Nat} {start bound : Nat} :
    xs.foldl max start ≤ bound ↔ start ≤ bound ∧ ∀ x ∈ xs, x ≤ bound := by
  induction xs generalizing start with
  | nil => simp
  | cons x xs ih => rw [List.foldl_cons, ih, Nat.max_le, List.forall_mem_cons, and_assoc]

/-! ### Groups -/

theorem groupSizes_perm (values : List Nat) :
    (groupSizes values).Perm (values.eraseDups.map values.count) := List.mergeSort_perm _ _

/-- There is a group for each different value. -/
theorem length_groupSizes (values : List Nat) :
    (groupSizes values).length = (distinctDescending values).length := by
  rw [(groupSizes_perm values).length_eq, List.length_map,
    (distinctDescending_perm values).length_eq]

/-- The size of a group is how often a value occurs. -/
theorem mem_groupSizes_iff {size : Nat} :
    size ∈ groupSizes values ↔ ∃ v ∈ values, values.count v = size := by
  simp only [(groupSizes_perm values).mem_iff, List.mem_map, List.mem_eraseDups]

theorem pos_of_mem_groupSizes {size : Nat} (h : size ∈ groupSizes values) : 0 < size := by
  obtain ⟨v, hv, rfl⟩ := mem_groupSizes_iff.mp h
  exact List.count_pos_iff.mpr hv

/-- The groups have all the values. -/
theorem sum_groupSizes (values : List Nat) : (groupSizes values).sum = values.length := by
  have hperm : values.eraseDups.Perm values.dedup := by
    refine (List.perm_ext_iff_of_nodup (nodup_eraseDups values) (List.nodup_dedup values)).mpr ?_
    simp
  rw [(groupSizes_perm values).sum_eq, (hperm.map _).sum_eq, List.sum_map_count_dedup_eq_length]

theorem groupSizes_pairwise (values : List Nat) :
    (groupSizes values).Pairwise (· ≥ ·) := List.pairwise_mergeSort' (· ≥ ·) _

/-- Four values form groups in one of five ways. -/
theorem groupSizes_cases (hlength : values.length = 4) :
    groupSizes values = [4] ∨ groupSizes values = [3, 1] ∨ groupSizes values = [2, 2] ∨
      groupSizes values = [2, 1, 1] ∨ groupSizes values = [1, 1, 1, 1] := by
  have hsum := sum_groupSizes values
  have hpairwise := groupSizes_pairwise values
  have hpos : ∀ size ∈ groupSizes values, 0 < size := fun _ => pos_of_mem_groupSizes
  rw [hlength] at hsum
  generalize groupSizes values = sizes at hsum hpairwise hpos
  rcases sizes with _ | ⟨a, _ | ⟨b, _ | ⟨c, _ | ⟨d, _ | ⟨e, rest⟩⟩⟩⟩⟩ <;>
    simp at hsum hpairwise hpos ⊢ <;> omega

/-- Exactly three equal values among four earn the bonus for them. Otherwise the bonus for two pairs
goes with two different values at most, that for one pair with three at most, and without a pair
there is none. -/
theorem groupBonus_cases (w : Weights) (hlength : values.length = 4) :
    (∃ v, values.count v = 3) ∧ groupBonus w values = (w.bonus .trips).toInt ∨
      (¬ ∃ v, values.count v = 3) ∧
        ((distinctDescending values).length ≤ 2 ∧
            groupBonus w values = (w.bonus .pair).toInt + (w.bonus .twoPair).toInt ∨
          (distinctDescending values).length ≤ 3 ∧ groupBonus w values = (w.bonus .pair).toInt ∨
            groupBonus w values = 0) := by
  have hthree : (∃ v, values.count v = 3) ↔ 3 ∈ groupSizes values := by
    rw [mem_groupSizes_iff]
    refine exists_congr fun v => (and_iff_right_of_imp fun hcount => ?_).symm
    exact List.count_pos_iff.mp (hcount ▸ Nat.succ_pos 2)
  simp only [hthree, ← length_groupSizes, groupBonus]
  rcases groupSizes_cases hlength with h | h | h | h | h <;> simp [h]

/-! ### Suits and straight draws -/

/-- Different cards of one suit differ in rank. -/
theorem countP_suit_le (hnodup : cards.Nodup) (s : Suit) : (cards.countP fun c => c.suit = s) ≤
    (distinctDescending (cards.map fun c => c.rank.value)).length := by
  have hsuit : ∀ c ∈ cards.filter fun c => c.suit = s, c.suit = s := fun c hc => by
    simpa using (List.mem_filter.mp hc).2
  have hranks := (nodup_map_rank_of_suit (hnodup.filter _) hsuit).map Rank.value_injective
  have hmem : ∀ v ∈ ((cards.filter fun c => c.suit = s).map Card.rank).map Rank.value,
      v ∈ cards.map fun c => c.rank.value := by
    intro v hv
    rw [List.map_map] at hv
    obtain ⟨c, hc, rfl⟩ := List.mem_map.mp hv
    exact List.mem_map_of_mem (List.mem_of_mem_filter hc)
  have hle := length_le_distinctDescending hranks hmem
  rwa [List.length_map, List.length_map, ← List.countP_eq_length_filter] at hle

theorem longestRun_le (values : List Nat) :
    longestRun values ≤ (distinctDescending values).length := by
  refine foldl_max_le_iff.mpr ⟨Nat.zero_le _, fun length hlength => ?_⟩
  obtain ⟨run, hrun, rfl⟩ := List.mem_map.mp hlength
  conv_rhs => rw [← List.flatten_splitBy (fun a b => a == b + 1) (distinctDescending values)]
  exact (List.sublist_flatten_of_mem hrun).length_le

theorem wheelDraw_le (values : List Nat) :
    wheelDraw values ≤ (distinctDescending values).length := by
  have hlow : ([2, 3, 4, 5].countP fun v => values.contains v) ≤
      (distinctDescending values).length := by
    rw [List.countP_eq_length_filter]
    refine length_le_distinctDescending (List.Nodup.filter _ (by decide)) fun v hv => ?_
    simpa using (List.mem_filter.mp hv).2
  rw [wheelDraw]
  split_ifs
  · exact hlow
  · exact Nat.zero_le _

/-- A straight draw is no longer than there are different values. -/
theorem straightPotential_le (values : List Nat) :
    straightPotential values ≤ (distinctDescending values).length :=
  Nat.max_le.mpr ⟨longestRun_le values, wheelDraw_le values⟩

/-! ### The default weights -/

/-- Four ranks weigh between 28 and 196. -/
theorem heightScore_bounds (hlength : values.length = 4) (hvalues : ∀ v ∈ values, 2 ≤ v ∧ v ≤ 14) :
    28 ≤ heightScore defaultWeights values ∧ heightScore defaultWeights values ≤ 196 := by
  have hperm : (values.mergeSort fun a b => b ≤ a).Perm values := List.mergeSort_perm _ _
  have hsorted : ∀ v ∈ values.mergeSort fun a b => b ≤ a, 2 ≤ v ∧ v ≤ 14 :=
    fun v hv => hvalues v (hperm.mem_iff.mp hv)
  have hfour := hperm.length_eq.trans hlength
  rw [heightScore]
  generalize values.mergeSort (fun a b => b ≤ a) = sorted at hsorted hfour
  obtain ⟨a, b, c, d, rfl⟩ := List.length_eq_four.mp hfour
  simp at hsorted
  simp [defaultWeights, PositionWeights.toList]
  omega

/-- Cards of one suit earn the less the fewer they can be. -/
theorem suitBonus_bounds {n : Nat} (h : ∀ s, (cards.countP fun c => c.suit = s) ≤ n) :
    0 ≤ suitBonus defaultWeights cards ∧
      suitBonus defaultWeights cards ≤ if n ≤ 2 then 0 else if n ≤ 3 then 100 else 400 := by
  have hmax : (Suit.all.map fun s => cards.countP fun c => c.suit = s).foldl max 0 ≤ n :=
    foldl_max_le_iff.mpr ⟨Nat.zero_le n, fun x hx => by
      obtain ⟨s, -, rfl⟩ := List.mem_map.mp hx
      exact h s⟩
  have hfour : (defaultWeights.bonus .fourSuited).toInt = 400 := rfl
  have hthree : (defaultWeights.bonus .threeSuited).toInt = 100 := rfl
  rw [suitBonus]
  split <;> split_ifs <;> omega

/-- Straight draws earn the less the shorter they must be. -/
theorem straightBonus_bounds {length n : Nat} (h : length ≤ n) :
    0 ≤ straightBonus defaultWeights length ∧
      straightBonus defaultWeights length ≤ if n ≤ 2 then 30 else if n ≤ 3 then 100 else 300 := by
  have hfour : (defaultWeights.bonus .runOfFour).toInt = 300 := rfl
  have hthree : (defaultWeights.bonus .runOfThree).toInt = 100 := rfl
  have htwo : (defaultWeights.bonus .runOfTwo).toInt = 30 := rfl
  rw [straightBonus.eq_def]
  split <;> split_ifs <;> omega

/-- A rank occurs among cards as often as its value among their values. -/
theorem count_map_value (r : Rank) :
    (cards.map fun c => c.rank.value).count r.value = (cards.map Card.rank).count r := by
  rw [← List.count_map_of_injective _ _ Rank.value_injective, List.map_map]
  rfl

theorem exists_count_value_eq_iff {size : Nat} (hsize : 0 < size) :
    (∃ v, (cards.map fun c => c.rank.value).count v = size) ↔
      ∃ r, (cards.map Card.rank).count r = size := by
  constructor
  · rintro ⟨v, hv⟩
    obtain ⟨c, -, rfl⟩ := List.mem_map.mp (List.count_pos_iff.mp (hv ▸ hsize))
    exact ⟨c.rank, by rw [← count_map_value, hv]⟩
  · rintro ⟨r, hr⟩
    exact ⟨r.value, by rw [count_map_value, hr]⟩

/-- Of four different cards, those with exactly three of one rank score at least 1028, and all
others score at most 1026. -/
theorem keepScore_cases (hlength : cards.length = 4) (hnodup : cards.Nodup) :
    (∃ r, (cards.map Card.rank).count r = 3) ∧ 1028 ≤ keepScore defaultWeights cards ∨
      (¬ ∃ r, (cards.map Card.rank).count r = 3) ∧ keepScore defaultWeights cards ≤ 1026 := by
  have hvalues : ∀ v ∈ cards.map fun c => c.rank.value, 2 ≤ v ∧ v ≤ 14 := by
    intro v hv
    obtain ⟨c, -, rfl⟩ := List.mem_map.mp hv
    cases c.rank <;> decide
  have hfour : (cards.map fun c => c.rank.value).length = 4 := by rw [List.length_map, hlength]
  have hheight := heightScore_bounds hfour hvalues
  have hsuits := suitBonus_bounds (countP_suit_le hnodup)
  have hdraws := straightBonus_bounds (straightPotential_le (cards.map fun c => c.rank.value))
  have htrips : (defaultWeights.bonus .trips).toInt = 1000 := rfl
  have hpair : (defaultWeights.bonus .pair).toInt = 500 := rfl
  have htwoPair : (defaultWeights.bonus .twoPair).toInt = 300 := rfl
  have hgroups := groupBonus_cases defaultWeights hfour
  rw [exists_count_value_eq_iff (Nat.succ_pos 2)] at hgroups
  rw [keepScore]
  rcases hgroups with ⟨hthree, hbonus⟩ | ⟨hnone, ⟨hranks, hbonus⟩ | ⟨hranks, hbonus⟩ | hbonus⟩
  · exact .inl ⟨hthree, by omega⟩
  · rw [if_pos hranks] at hsuits hdraws
    exact .inr ⟨hnone, by omega⟩
  · refine .inr ⟨hnone, ?_⟩
    split_ifs at hsuits hdraws <;> omega
  · refine .inr ⟨hnone, ?_⟩
    split_ifs at hsuits hdraws <;> omega

end CaliforniaPoker
