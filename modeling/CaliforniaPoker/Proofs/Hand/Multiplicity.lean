import CaliforniaPoker.Proofs.Hand.Order
import CaliforniaPoker.Proofs.Hand.Rules
import Mathlib.Data.List.Chain

/-!
# Groups of equal rank and multiplicities

A list of group sizes and a list of ranks, one for each group, describe the hands in which each of
these ranks occurs as often as its size says. Such a description is the same thing as the
multiplicities of the hand together with its ranks in the order of their multiplicity.

## Main definitions

* `IsGrouping`: different ranks for the groups, descending among neighbouring groups of one size.
* `spread`: the ranks of all cards of some groups.

## Main results

* `count_spread`: every rank occurs as often as the size of its group.
* `multiplicities_eq_iff`: the multiplicities are given sizes exactly when the ranks spread from a
  grouping, and this grouping is the list of ranks in the order of their multiplicity.
-/

namespace CaliforniaPoker

/-- A rank for each group of the given sizes, no rank twice, so that neighbouring groups of one size
have descending ranks. -/
structure IsGrouping (sizes : List Nat) (groups : List Rank) : Prop where
  length_eq : groups.length = sizes.length
  nodup : groups.Nodup
  descending : (sizes.zip groups).IsChain fun g g' => g.1 = g'.1 → g'.2 < g.2

/-- The ranks of the cards that groups with given sizes and ranks have. -/
def spread (groups : List (Nat × Rank)) : List Rank :=
  groups.flatMap fun g => List.replicate g.1 g.2

theorem length_spread (groups : List (Nat × Rank)) :
    (spread groups).length = (groups.map Prod.fst).sum := by
  simp [spread, List.length_flatMap]

theorem mem_spread {groups : List (Nat × Rank)} {r : Rank} :
    r ∈ spread groups ↔ ∃ n, n ≠ 0 ∧ (n, r) ∈ groups := by
  simp only [spread, List.mem_flatMap, List.mem_replicate]
  constructor
  · rintro ⟨⟨n, r'⟩, hg, hn, rfl⟩
    exact ⟨n, hn, hg⟩
  · rintro ⟨n, hn, hg⟩
    exact ⟨(n, r), hg, hn, rfl⟩

theorem count_spread_of_notMem {groups : List (Nat × Rank)} {r : Rank}
    (h : r ∉ groups.map Prod.snd) : (spread groups).count r = 0 := by
  rw [List.count_eq_zero, mem_spread]
  rintro ⟨n, -, hg⟩
  exact h (List.mem_map_of_mem hg)

/-- Every rank occurs as often as the size of its group. -/
theorem count_spread {groups : List (Nat × Rank)} (hnodup : (groups.map Prod.snd).Nodup)
    {n : Nat} {r : Rank} (h : (n, r) ∈ groups) : (spread groups).count r = n := by
  induction groups with
  | nil => simp at h
  | cons g groups ih =>
    rw [List.map_cons, List.nodup_cons] at hnodup
    have hcons : (spread (g :: groups)).count r =
        (List.replicate g.1 g.2).count r + (spread groups).count r := by
      simp [spread, List.count_append]
    rw [hcons, List.count_replicate]
    rcases List.mem_cons.mp h with rfl | h
    · rw [count_spread_of_notMem hnodup.1]
      simp
    · have hne : g.2 ≠ r := fun hr => hnodup.1 (hr ▸ List.mem_map_of_mem h)
      rw [ih hnodup.2 h]
      simp [hne]

namespace IsGrouping

variable {sizes : List Nat} {groups : List Rank}

theorem map_fst_zip (h : IsGrouping sizes groups) : (sizes.zip groups).map Prod.fst = sizes :=
  List.map_fst_zip (Nat.le_of_eq h.length_eq.symm)

theorem map_snd_zip (h : IsGrouping sizes groups) : (sizes.zip groups).map Prod.snd = groups :=
  List.map_snd_zip (Nat.le_of_eq h.length_eq)

theorem nodup_map_snd_zip (h : IsGrouping sizes groups) :
    ((sizes.zip groups).map Prod.snd).Nodup := by
  rw [h.map_snd_zip]
  exact h.nodup

/-- As many cards as the sizes sum up to. -/
theorem length_spread (h : IsGrouping sizes groups) :
    (spread (sizes.zip groups)).length = sizes.sum := by
  rw [CaliforniaPoker.length_spread, h.map_fst_zip]

/-- The sizes are how often the ranks of the groups occur. -/
theorem map_count_spread (h : IsGrouping sizes groups) :
    groups.map (spread (sizes.zip groups)).count = sizes := by
  calc groups.map (spread (sizes.zip groups)).count
      = (sizes.zip groups).map fun g => (spread (sizes.zip groups)).count g.2 := by
        conv_lhs => rw [← h.map_snd_zip, List.map_map]
        rw [h.map_snd_zip]
        rfl
    _ = (sizes.zip groups).map Prod.fst :=
        List.map_congr_left fun _ hg => count_spread h.nodup_map_snd_zip hg
    _ = sizes := h.map_fst_zip

end IsGrouping

/-! ### The order of ranks by multiplicity -/

variable {ranks : List Rank}

instance : IsTrans Rank (Precedes ranks) where
  trans a b c hab hbc := by
    simp only [Precedes] at *
    omega

instance : Trans (Precedes ranks) (Precedes ranks) (Precedes ranks) := ⟨IsTrans.trans _ _ _⟩

instance : Std.Total (Precedes ranks) where
  total a b := by
    simp only [Precedes]
    omega

instance : Std.Antisymm (Precedes ranks) where
  antisymm a b hab hba := by
    have hvalue : a.value = b.value := by
      simp only [Precedes] at *
      omega
    exact Rank.value_injective hvalue

theorem byMultiplicity_perm (ranks : List Rank) : (byMultiplicity ranks).Perm ranks.dedup :=
  List.perm_insertionSort _ _

theorem nodup_byMultiplicity (ranks : List Rank) : (byMultiplicity ranks).Nodup :=
  (byMultiplicity_perm ranks).nodup_iff.mpr ranks.nodup_dedup

theorem mem_byMultiplicity {r : Rank} : r ∈ byMultiplicity ranks ↔ r ∈ ranks := by
  rw [(byMultiplicity_perm ranks).mem_iff, List.mem_dedup]

theorem byMultiplicity_pairwise (ranks : List Rank) :
    (byMultiplicity ranks).Pairwise (Precedes ranks) :=
  List.pairwise_insertionSort _ _

/-- Of two ranks that occur equally often the higher one comes first. -/
theorem byMultiplicity_pairwise_lt (ranks : List Rank) : (byMultiplicity ranks).Pairwise fun r r' =>
    ranks.count r = ranks.count r' → r' < r := by
  refine ((byMultiplicity_pairwise ranks).and (nodup_byMultiplicity ranks)).imp ?_
  rintro r r' ⟨hprec, hne⟩ hcount
  have hvalue : r.value ≠ r'.value := fun h => hne (Rank.value_injective h)
  rw [Rank.lt_iff]
  simp only [Precedes] at hprec
  omega

/-- The ranks in the order of their multiplicity are known from their members and their order. -/
theorem byMultiplicity_eq {groups : List Rank} (hnodup : groups.Nodup)
    (hmem : ∀ r, r ∈ groups ↔ r ∈ ranks) (horder : groups.Pairwise (Precedes ranks)) :
    byMultiplicity ranks = groups := by
  have hperm : (byMultiplicity ranks).Perm groups := by
    rw [List.perm_ext_iff_of_nodup (nodup_byMultiplicity ranks) hnodup]
    intro r
    rw [mem_byMultiplicity, hmem]
  exact hperm.eq_of_pairwise' (byMultiplicity_pairwise ranks) horder

/-- Different ranks are ordered from the highest down. -/
theorem byMultiplicity_descends (h : ranks.Nodup) :
    (byMultiplicity ranks).Pairwise fun r r' => r' < r := by
  refine (byMultiplicity_pairwise_lt ranks).imp_of_mem fun hr hr' hlt => hlt ?_
  rw [List.count_eq_one_of_mem h (mem_byMultiplicity.mp hr),
    List.count_eq_one_of_mem h (mem_byMultiplicity.mp hr')]

/-- Descending ranks are in the order of their multiplicity. -/
theorem byMultiplicity_eq_self (h : ranks.Pairwise fun r r' => r' < r) :
    byMultiplicity ranks = ranks := by
  have hnodup := Rank.nodup_of_descends h
  refine byMultiplicity_eq hnodup (fun _ => Iff.rfl) (h.imp_of_mem ?_)
  intro r r' hr hr' hlt
  rw [Precedes, List.count_eq_one_of_mem hnodup hr, List.count_eq_one_of_mem hnodup hr']
  exact .inr ⟨rfl, Nat.le_of_lt hlt⟩

theorem zip_map_count (ranks groups : List Rank) :
    (groups.map ranks.count).zip groups = groups.map fun r => (ranks.count r, r) := by
  rw [← List.zip_map', List.map_id']

/-- The ranks in the order of their multiplicity are a grouping by multiplicity. -/
theorem isGrouping_byMultiplicity (ranks : List Rank) :
    IsGrouping (multiplicities ranks) (byMultiplicity ranks) where
  length_eq := List.length_map _ |>.symm
  nodup := nodup_byMultiplicity ranks
  descending := by
    rw [multiplicities, zip_map_count, List.isChain_map]
    exact (byMultiplicity_pairwise_lt ranks).isChain

/-- Every list of ranks spreads from its groups of equal rank. -/
theorem perm_spread_byMultiplicity (ranks : List Rank) :
    ranks.Perm (spread ((multiplicities ranks).zip (byMultiplicity ranks))) := by
  have hgroups := isGrouping_byMultiplicity ranks
  rw [List.perm_iff_count]
  intro r
  by_cases hr : r ∈ ranks
  · have hg : (ranks.count r, r) ∈ (multiplicities ranks).zip (byMultiplicity ranks) := by
      rw [multiplicities, zip_map_count, List.mem_map]
      exact ⟨r, mem_byMultiplicity.mpr hr, rfl⟩
    rw [count_spread hgroups.nodup_map_snd_zip hg]
  · have hnot : r ∉ ((multiplicities ranks).zip (byMultiplicity ranks)).map Prod.snd := by
      rw [hgroups.map_snd_zip, mem_byMultiplicity]
      exact hr
    rw [count_spread_of_notMem hnot, List.count_eq_zero_of_not_mem hr]

/-- A grouping whose sizes do not grow lists its ranks in the order of their multiplicity. -/
theorem IsGrouping.pairwise_precedes {sizes : List Nat} {groups : List Rank}
    (h : IsGrouping sizes groups) (hdesc : sizes.Pairwise (· ≥ ·))
    (hcount : groups.map ranks.count = sizes) : groups.Pairwise (Precedes ranks) := by
  have hchain : groups.IsChain fun r r' => ranks.count r = ranks.count r' → r' < r := by
    have := h.descending
    rwa [← hcount, zip_map_count, List.isChain_map] at this
  have hcounts : groups.IsChain fun r r' => ranks.count r ≥ ranks.count r' := by
    rw [← hcount, List.pairwise_map] at hdesc
    exact hdesc.isChain
  have hprec : groups.IsChain (Precedes ranks) := by
    rw [List.isChain_iff_getElem] at hchain hcounts ⊢
    intro i hi
    have hlt := hchain i hi
    have hge := hcounts i hi
    rw [Rank.lt_iff] at hlt
    simp only [Precedes]
    omega
  exact hprec.pairwise

/-- The multiplicities of some ranks are given sizes exactly when the ranks spread from a grouping
of these sizes, which then lists the ranks in the order of their multiplicity. -/
theorem multiplicities_eq_iff {sizes : List Nat} {groups : List Rank} (hpos : 0 ∉ sizes)
    (hdesc : sizes.Pairwise (· ≥ ·)) :
    multiplicities ranks = sizes ∧ byMultiplicity ranks = groups ↔
      IsGrouping sizes groups ∧ ranks.Perm (spread (sizes.zip groups)) := by
  constructor
  · rintro ⟨rfl, rfl⟩
    exact ⟨isGrouping_byMultiplicity ranks, perm_spread_byMultiplicity ranks⟩
  · rintro ⟨hgroups, hperm⟩
    have hcount : groups.map ranks.count = sizes := by
      rw [← hgroups.map_count_spread]
      exact List.map_congr_left fun r _ => hperm.count_eq r
    have hmem : ∀ r, r ∈ groups ↔ r ∈ ranks := by
      intro r
      rw [hperm.mem_iff, mem_spread]
      constructor
      · intro hr
        rw [← hgroups.map_snd_zip, List.mem_map] at hr
        obtain ⟨⟨n, r'⟩, hg, rfl⟩ := hr
        exact ⟨n, fun hn => hpos (hn ▸ (List.of_mem_zip hg).1), hg⟩
      · rintro ⟨n, -, hg⟩
        exact (List.of_mem_zip hg).2
    have heq := byMultiplicity_eq hgroups.nodup hmem (hgroups.pairwise_precedes hdesc hcount)
    exact ⟨by rw [multiplicities, heq, hcount], heq⟩

end CaliforniaPoker
