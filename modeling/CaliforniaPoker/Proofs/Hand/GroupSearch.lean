import CaliforniaPoker.Proofs.Hand.Multiplicity
import Mathlib.Data.List.Perm.Subperm
import Mathlib.Algebra.BigOperators.Group.List.Basic

/-!
# The search for groups of equal rank

The search assigns ranks to groups one by one and goes back when the groups that are left cannot be
completed. This file shows that it misses nothing and that it returns the greatest assignment.

## Main definitions

* `GroupSearch.Finds`: the assignments that the search can come to, whatever order it tries.

## Main results

* `GroupSearch.finds_of_run`, `GroupSearch.exists_run_of_finds`: the search returns an assignment
  that it can come to, and none is lexicographically above it.
* `GroupSearch.finds_iff`: these assignments without reference to the search.
* `bestGrouping?_sound`, `exists_bestGrouping?`: the assignment that is found is the greatest
  grouping that has room for all ranks and for nothing but them and the wilds.
-/

namespace CaliforniaPoker

namespace GroupSearch

/-! ### The search returns the greatest assignment -/

/-- An assignment of ranks to groups of the given sizes each of whose steps the search admits. -/
def Finds (held : Rank → Nat) : List Nat → GroupSearch → List Rank → Prop
  | [], s, [] => s.uncovered = 0 ∧ s.wilds = 0
  | size :: sizes, s, r :: groups =>
    s.admits held size r = true ∧ Finds held sizes (s.assign held size r) groups
  | _, _, _ => False

variable {held : Rank → Nat}

theorem finds_of_run {sizes : List Nat} {s : GroupSearch} {groups : List Rank}
    (h : run held sizes s = some groups) : Finds held sizes s groups := by
  induction sizes generalizing s groups with
  | nil =>
    rw [run] at h
    split_ifs at h with hdone
    obtain rfl := Option.some.inj h
    exact hdone
  | cons size sizes ih =>
    rw [run] at h
    obtain ⟨r, -, hr⟩ := List.exists_of_findSome?_eq_some h
    split_ifs at hr with hadmits
    obtain ⟨rest, hrest, rfl⟩ := Option.map_eq_some_iff.mp hr
    exact ⟨hadmits, ih hrest⟩

/-- Ranks that stand before another one in `Rank.descending` are higher. -/
private theorem lt_of_mem_before {higher lower : List Rank} {r r' : Rank}
    (h : Rank.descending = higher ++ r :: lower) (hr' : r' ∉ higher) (hne : r' ≠ r) : r' < r := by
  have hsorted := Rank.descending_pairwise
  have hmem : r' ∈ higher ++ r :: lower := h ▸ Rank.mem_descending r'
  rw [h, List.pairwise_append, List.pairwise_cons] at hsorted
  rcases List.mem_append.mp hmem with hmem | hmem
  · exact absurd hmem hr'
  · rcases List.mem_cons.mp hmem with rfl | hmem
    · exact absurd rfl hne
    · exact hsorted.2.1.1 r' hmem

/-- If some assignment exists the search returns one, and that one is not below it. -/
theorem exists_run_of_finds {sizes : List Nat} {s : GroupSearch} {groups : List Rank}
    (h : Finds held sizes s groups) :
    ∃ best, run held sizes s = some best ∧ (compare groups best).isLE := by
  induction sizes generalizing s groups with
  | nil =>
    cases groups with
    | nil =>
      have hdone : s.uncovered = 0 ∧ s.wilds = 0 := h
      exact ⟨[], by rw [run, if_pos hdone], rfl⟩
    | cons r groups => exact h.elim
  | cons size sizes ih =>
    cases groups with
    | nil => exact h.elim
    | cons r groups =>
      obtain ⟨hadmits, hrest⟩ := h
      obtain ⟨best, hbest, hle⟩ := ih hrest
      -- the rank of the first group is tried, so the search ends there or at a higher rank
      have htry : (if s.admits held size r = true then
          (run held sizes (s.assign held size r)).map (r :: ·) else none) = some (r :: best) := by
        rw [if_pos hadmits, hbest, Option.map_some]
      cases hrun : run held (size :: sizes) s with
      | none =>
        rw [run, List.findSome?_eq_none_iff] at hrun
        rw [hrun r (Rank.mem_descending r)] at htry
        exact absurd htry (Option.some_ne_none _).symm
      | some found =>
        rw [run, List.findSome?_eq_some_iff] at hrun
        obtain ⟨higher, r', lower, hsplit, hr', hhigher⟩ := hrun
        refine ⟨found, rfl, ?_⟩
        by_cases hrr' : r = r'
        · subst hrr'
          rw [htry] at hr'
          obtain rfl := Option.some.inj hr'
          exact isLE_compare_cons_iff.mpr (.inr ⟨rfl, hle⟩)
        · have hnot : r ∉ higher := by
            intro hmem
            rw [hhigher r hmem] at htry
            exact absurd htry (Option.some_ne_none _).symm
          have hlt := lt_of_mem_before hsplit hnot hrr'
          split_ifs at hr'
          obtain ⟨rest, -, rfl⟩ := Option.map_eq_some_iff.mp hr'
          exact isLE_compare_cons_iff.mpr (.inl hlt)

/-! ### Assignments without the search -/

/-- Neighbouring groups of one size have descending ranks. -/
def Descends (g g' : Nat × Rank) : Prop := g.1 = g'.1 → g'.2 < g.2

theorem admits_iff {s : GroupSearch} {size : Nat} {r : Rank} :
    s.admits held size r = true ↔ (∀ g ∈ s.previous, Descends g (size, r)) ∧ r ∉ s.taken ∧
      held r ≤ size ∧ size - held r ≤ s.wilds := by
  obtain ⟨uncovered, wilds, previous, taken⟩ := s
  cases previous with
  | none => simp [admits, and_assoc]
  | some g =>
    have hsome : (∀ g' ∈ some g, Descends g' (size, r)) ↔ Descends g (size, r) := by
      simp only [Option.mem_def, Option.some.injEq, forall_eq']
    rw [hsome]
    simp [admits, Descends, and_assoc, Decidable.imp_iff_not_or]

/-- What makes ranks an assignment for the groups that are left: they are new, they descend among
neighbouring groups of one size, no rank is held too often, all uncovered naturals have their rank
among them, and the groups are topped up with exactly the wilds that are left. -/
theorem finds_iff {sizes : List Nat} {s : GroupSearch} {groups : List Rank} :
    Finds held sizes s groups ↔ groups.length = sizes.length ∧
      (s.previous.toList ++ sizes.zip groups).IsChain Descends ∧
      (∀ r ∈ groups, r ∉ s.taken) ∧ groups.Nodup ∧ (∀ g ∈ sizes.zip groups, held g.2 ≤ g.1) ∧
      s.uncovered ≤ (groups.map held).sum ∧
      ((sizes.zip groups).map fun g => g.1 - held g.2).sum = s.wilds := by
  induction sizes generalizing s groups with
  | nil =>
    cases groups with
    | nil => cases s.previous <;> simp [Finds, eq_comm]
    | cons r groups => simp [Finds]
  | cons size sizes ih =>
    cases groups with
    | nil => simp [Finds]
    | cons r groups =>
      rw [Finds, admits_iff, ih]
      have hchain : (s.previous.toList ++ (size :: sizes).zip (r :: groups)).IsChain Descends ↔
          (∀ g ∈ s.previous, Descends g (size, r)) ∧
            ((s.assign held size r).previous.toList ++ sizes.zip groups).IsChain Descends := by
        cases hp : s.previous <;> simp [assign]
      rw [hchain]
      simp only [assign, List.length_cons, Nat.add_right_cancel_iff, List.mem_cons, not_or,
        List.nodup_cons, List.zip_cons_cons, forall_eq_or_imp, List.map_cons, List.sum_cons]
      constructor
      · rintro ⟨⟨hprev, htaken, hroom, hwilds⟩, hlen, hrest, hnew, hnodup, hheld, hcover, hspent⟩
        refine ⟨hlen, ⟨hprev, hrest⟩, ⟨htaken, fun r' hr' => (hnew r' hr').2⟩,
          ⟨fun hr => (hnew r hr).1 rfl, hnodup⟩, ⟨hroom, hheld⟩, ?_, ?_⟩
        · omega
        · omega
      · rintro ⟨hlen, ⟨hprev, hrest⟩, ⟨htaken, hnew⟩, ⟨hr, hnodup⟩, ⟨hroom, hheld⟩, hcover, hspent⟩
        refine ⟨⟨hprev, htaken, hroom, ?_⟩, hlen, hrest,
          fun r' hr' => ⟨fun h => hr (h ▸ hr'), hnew r' hr'⟩, hnodup, hheld, ?_, ?_⟩
        · omega
        · omega
        · omega

end GroupSearch

/-! ### The groups of natural ranks and wilds -/

variable {ranks : List Rank} {wilds : Nat} {sizes : List Nat} {groups : List Rank}

private theorem sum_map_count_cons (r : Rank) (ranks groups : List Rank) :
    (groups.map (r :: ranks).count).sum = (groups.map ranks.count).sum + groups.count r := by
  induction groups with
  | nil => rfl
  | cons r' groups ih =>
    have hsymm : (r == r') = (r' == r) := Bool.beq_comm
    rw [List.map_cons, List.sum_cons, ih, List.map_cons, List.sum_cons, List.count_cons,
      List.count_cons, hsymm]
    omega

/-- Different ranks occur together as often as there are entries of one of them. -/
theorem sum_map_count (hnodup : groups.Nodup) :
    (groups.map ranks.count).sum = ranks.countP (· ∈ groups) := by
  induction ranks with
  | nil => simp
  | cons r ranks ih =>
    rw [sum_map_count_cons, ih, hnodup.count, List.countP_cons]
    simp

/-- What groups hold and what they lack add up to their sizes. -/
private theorem sum_held_add_sum_lacking (held : Rank → Nat) {groups : List (Nat × Rank)}
    (hroom : ∀ g ∈ groups, held g.2 ≤ g.1) :
    (groups.map fun g => held g.2).sum + (groups.map fun g => g.1 - held g.2).sum =
      (groups.map Prod.fst).sum := by
  induction groups with
  | nil => rfl
  | cons g groups ih =>
    rw [List.forall_mem_cons] at hroom
    have := ih hroom.2
    simp only [List.map_cons, List.sum_cons]
    omega

/-- Different ranks account for at least all entries only if every entry is one of them. -/
private theorem mem_of_length_le_sum (hnodup : groups.Nodup)
    (h : ranks.length ≤ (groups.map ranks.count).sum) : ∀ r ∈ ranks, r ∈ groups := by
  rw [sum_map_count hnodup] at h
  have heq := Nat.le_antisymm List.countP_le_length h
  simpa using List.countP_eq_length.mp heq

private theorem sum_map_count_eq_length (hnodup : groups.Nodup) (h : ∀ r ∈ ranks, r ∈ groups) :
    (groups.map ranks.count).sum = ranks.length := by
  rw [sum_map_count hnodup, List.countP_eq_length]
  simpa using h

namespace IsGrouping

/-- The groups have room for some ranks if every rank has a group that is large enough. -/
theorem subperm_spread_iff (h : IsGrouping sizes groups) :
    ranks.Subperm (spread (sizes.zip groups)) ↔
      (∀ r ∈ ranks, r ∈ groups) ∧ ∀ g ∈ sizes.zip groups, ranks.count g.2 ≤ g.1 := by
  constructor
  · intro hsub
    refine ⟨fun r hr => ?_, fun g hg => ?_⟩
    · obtain ⟨n, -, hg⟩ := mem_spread.mp (hsub.subset hr)
      exact (List.of_mem_zip hg).2
    · rw [← count_spread h.nodup_map_snd_zip hg]
      exact hsub.count_le g.2
  · rintro ⟨hall, hroom⟩
    rw [List.subperm_ext_iff]
    intro r hr
    have hg := hall r hr
    rw [← h.map_snd_zip, List.mem_map] at hg
    obtain ⟨g, hg, rfl⟩ := hg
    rw [count_spread h.nodup_map_snd_zip hg]
    exact hroom g hg

theorem sum_count_add_sum_lacking (h : IsGrouping sizes groups)
    (hroom : ∀ g ∈ sizes.zip groups, ranks.count g.2 ≤ g.1) :
    (groups.map ranks.count).sum +
      ((sizes.zip groups).map fun g => g.1 - ranks.count g.2).sum = sizes.sum := by
  have hheld : (sizes.zip groups).map (fun g => ranks.count g.2) = groups.map ranks.count := by
    conv_rhs => rw [← h.map_snd_zip, List.map_map]
    rfl
  have hsum := sum_held_add_sum_lacking (fun r => ranks.count r) hroom
  rwa [hheld, h.map_fst_zip] at hsum

end IsGrouping

/-- Groups have room for some ranks and top them up with the given number of wilds. -/
theorem finds_start_iff : GroupSearch.Finds (fun r => ranks.count r) sizes
      { uncovered := ranks.length, wilds, previous := none, taken := [] } groups ↔
    IsGrouping sizes groups ∧ ranks.Subperm (spread (sizes.zip groups)) ∧
      ranks.length + wilds = sizes.sum := by
  rw [GroupSearch.finds_iff]
  simp only [Option.toList_none, List.nil_append, List.not_mem_nil, not_false_eq_true,
    implies_true, true_and]
  constructor
  · rintro ⟨hlen, hchain, hnodup, hroom, hcover, hspent⟩
    have hgroups : IsGrouping sizes groups := ⟨hlen, hnodup, hchain⟩
    have hall := mem_of_length_le_sum hnodup hcover
    refine ⟨hgroups, hgroups.subperm_spread_iff.mpr ⟨hall, hroom⟩, ?_⟩
    have hheld := sum_map_count_eq_length hnodup hall
    have hsizes := hgroups.sum_count_add_sum_lacking hroom
    omega
  · rintro ⟨hgroups, hsub, hsum⟩
    obtain ⟨hall, hroom⟩ := hgroups.subperm_spread_iff.mp hsub
    have hheld := sum_map_count_eq_length hgroups.nodup hall
    have hsizes := hgroups.sum_count_add_sum_lacking hroom
    exact ⟨hgroups.length_eq, hgroups.descending, hgroups.nodup, hroom, by omega, by omega⟩

/-- The grouping that is found has room for all ranks and is topped up by the wilds. -/
theorem bestGrouping?_sound (h : bestGrouping? ranks wilds sizes = some groups) :
    IsGrouping sizes groups ∧ ranks.Subperm (spread (sizes.zip groups)) ∧
      ranks.length + wilds = sizes.sum :=
  finds_start_iff.mp (GroupSearch.finds_of_run h)

/-- If a grouping has room for all ranks and is topped up by the wilds, one that is not below it is
found. -/
theorem exists_bestGrouping? (hgroups : IsGrouping sizes groups)
    (hsub : ranks.Subperm (spread (sizes.zip groups))) (hsum : ranks.length + wilds = sizes.sum) :
    ∃ best, bestGrouping? ranks wilds sizes = some best ∧ (compare groups best).isLE :=
  GroupSearch.exists_run_of_finds (finds_start_iff.mpr ⟨hgroups, hsub, hsum⟩)

end CaliforniaPoker
