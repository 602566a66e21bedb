import CaliforniaPoker.Proofs.Hand.Order
import CaliforniaPoker.Proofs.Hand.Rules
import Mathlib.Data.List.Perm.Basic

/-!
# The best straight that ranks can make

The ten straights that are tried are the straights of the rules, and the first of them that has all
the given ranks is the highest one.

## Main results

* `FullHand.isStraight_iff`: a hand is a straight exactly when its ranks are those of one of the
  ten.
* `straightHigh?_sound`, `exists_straightHigh?`: the straight that is found has all the given ranks,
  and no straight that has them is higher.
* `FullHand.IsStraight.unique`: a hand is a straight to at most one rank.
-/

namespace CaliforniaPoker

/-- A straight has five consecutive ranks that end in its high card, or it is the wheel. -/
private theorem perm_of_mem_straights {high : Rank} {window : List Rank}
    (hs : (high, window) ∈ straights) :
    6 ≤ high.value ∧ (window.map Rank.value).Perm (List.range' (high.value - 4) 5) ∨
      high = .five ∧ window.Perm [.ace, .two, .three, .four, .five] := by
  have hall : ∀ s ∈ straights,
      6 ≤ s.1.value ∧ (s.2.map Rank.value).Perm (List.range' (s.1.value - 4) 5) ∨
        s.1 = .five ∧ s.2.Perm [.ace, .two, .three, .four, .five] := by decide
  exact hall _ hs

theorem exists_straight {high : Rank} (h : 5 ≤ high.value) :
    ∃ window, (high, window) ∈ straights := by
  have hmem : high ∈ straights.map Prod.fst := by
    cases high with
    | two | three | four => exact absurd h (by decide)
    | _ => decide
  obtain ⟨⟨_, window⟩, hs, rfl⟩ := List.mem_map.mp hmem
  exact ⟨window, hs⟩

private theorem straights_descend : straights.Pairwise fun s s' => s'.1.value ≤ s.1.value := by
  decide

theorem length_of_mem_straights : ∀ s ∈ straights, s.2.length = handSize := by decide

theorem nodup_of_mem_straights : ∀ s ∈ straights, s.2.Nodup := by decide

private theorem eq_of_mem_straights_of_perm :
    ∀ s ∈ straights, ∀ s' ∈ straights, s.2.Perm s'.2 → s.1 = s'.1 := by decide

namespace FullHand

variable {hand : FullHand}

/-- A hand is a straight exactly when its ranks are those of one of the ten straights. -/
theorem isStraight_iff {high : Rank} :
    hand.IsStraight high ↔ ∃ window, (high, window) ∈ straights ∧ hand.ranks.Perm window := by
  constructor
  · rintro (⟨hhigh, hperm⟩ | ⟨rfl, hperm⟩)
    · obtain ⟨window, hs⟩ := exists_straight (Nat.le_of_succ_le hhigh)
      rcases perm_of_mem_straights hs with ⟨-, hwindow⟩ | ⟨rfl, -⟩
      · have hvalues := hperm.trans hwindow.symm
        exact ⟨window, hs, (List.map_perm_map_iff Rank.value_injective).mp hvalues⟩
      · exact absurd hhigh (by decide)
    · obtain ⟨window, hs⟩ := exists_straight (show 5 ≤ Rank.five.value by decide)
      rcases perm_of_mem_straights hs with ⟨hhigh, -⟩ | ⟨-, hwindow⟩
      · exact absurd hhigh (by decide)
      · exact ⟨window, hs, hperm.trans hwindow.symm⟩
  · rintro ⟨window, hs, hperm⟩
    rcases perm_of_mem_straights hs with ⟨hhigh, hwindow⟩ | ⟨rfl, hwindow⟩
    · exact .inl ⟨hhigh, (hperm.map _).trans hwindow⟩
    · exact .inr ⟨rfl, hperm.trans hwindow⟩

theorem IsStraight.nodup_ranks {high : Rank} (h : hand.IsStraight high) : hand.ranks.Nodup := by
  obtain ⟨window, hs, hperm⟩ := isStraight_iff.mp h
  exact hperm.nodup_iff.mpr (nodup_of_mem_straights _ hs)

/-- A hand is a straight to at most one rank. -/
theorem IsStraight.unique {a b : Rank} (ha : hand.IsStraight a) (hb : hand.IsStraight b) :
    a = b := by
  obtain ⟨window, hs, hperm⟩ := isStraight_iff.mp ha
  obtain ⟨window', hs', hperm'⟩ := isStraight_iff.mp hb
  exact eq_of_mem_straights_of_perm _ hs _ hs' (hperm.symm.trans hperm')

/-- If a hand is a straight, `straightHigh?` gives the rank in which it ends. -/
theorem straightHigh?_eq_some_iff {high : Rank} :
    hand.straightHigh? = some high ↔ hand.IsStraight high := by
  constructor
  · intro h
    simpa using List.find?_some h
  · intro h
    cases hfind : hand.straightHigh? with
    | none =>
      have := List.find?_eq_none.mp hfind high (Rank.mem_all high)
      simp [h] at this
    | some high' =>
      have hhigh' : hand.IsStraight high' := by simpa using List.find?_some hfind
      rw [hhigh'.unique h]

end FullHand

/-! ### The straight that is found -/

variable {ranks : List Rank} {high : Rank}

/-- The straight that is found has all the given ranks, and these differ. -/
theorem straightHigh?_sound (h : straightHigh? ranks = some high) :
    ranks.Nodup ∧ ∃ window, (high, window) ∈ straights ∧ ranks ⊆ window := by
  rw [straightHigh?] at h
  split_ifs at h with hnodup
  obtain ⟨⟨_, window⟩, hfind, rfl⟩ := Option.map_eq_some_iff.mp h
  have hall : ∀ r ∈ ranks, r ∈ window := by simpa using List.find?_some hfind
  exact ⟨hnodup, window, List.mem_of_find?_eq_some hfind, hall⟩

/-- If different ranks all lie in a straight, one that is not lower is found. -/
theorem exists_straightHigh? {window : List Rank} (hnodup : ranks.Nodup)
    (hs : (high, window) ∈ straights) (hsub : ranks ⊆ window) :
    ∃ best, straightHigh? ranks = some best ∧ high.value ≤ best.value := by
  have hfits : (ranks.all fun r => window.contains r) = true := by
    rw [List.all_eq_true]
    exact fun r hr => List.contains_iff_mem.mpr (hsub hr)
  rw [straightHigh?, if_pos hnodup]
  cases hfind : straights.find? fun s => ranks.all fun r => s.2.contains r with
  | none => exact absurd hfits (List.find?_eq_none.mp hfind _ hs)
  | some best =>
    refine ⟨best.1, rfl, ?_⟩
    obtain ⟨-, before, after, hsplit, hbefore⟩ := List.find?_eq_some_iff_append.mp hfind
    have hsorted := straights_descend
    rw [hsplit] at hs hsorted
    rw [List.pairwise_append, List.pairwise_cons] at hsorted
    rcases List.mem_append.mp hs with hmem | hmem
    · have := hbefore _ hmem
      rw [hfits] at this
      exact absurd this (by decide)
    · rcases List.mem_cons.mp hmem with rfl | hmem
      · exact Nat.le_refl _
      · exact hsorted.2.1.1 _ hmem

end CaliforniaPoker
