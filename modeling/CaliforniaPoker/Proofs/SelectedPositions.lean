import CaliforniaPoker.Proofs.Pool
import Mathlib.Data.List.Sort

/-!
# The selected positions fit into a word

A pool can be as long as one likes, since wilds may be repeated, but the first of its best hands
lies at the beginning. A hand does not become worse when a wild takes the place of its last entry,
and its positions become smaller when the wild comes before that entry. So no wild is left out
before the last selected position: what is left out there are naturals, all different, of which
there are 52 at most. The bitfield of the selected positions therefore never needs more than 57
bits, and 64-bit arithmetic computes it exactly.

## Main definitions

* `wordOf`: the bitfield of some positions as 64-bit arithmetic computes it.

## Main results

* `lt_of_wild_of_notMem`: every selected position comes before every wild that is left out.
* `le_of_mem_indices`: no selected position is above 56.
* `toNat_wordOf`: 64-bit arithmetic is exact for positions below 64.
* `selectBest_bitfield`: the bitfield of a selection has the five selected bits.
-/

namespace CaliforniaPoker

variable {pool cards : List HandCard} {k : Nat} {b : BestHand}

/-! ### A wild in the place of the last position -/

/-- An ascending list becomes smaller when a smaller number comes in for its last one. -/
theorem orderedInsert_lt_concat {xs : List Nat} {i j : Nat} (hlt : j < i) (hnew : j ∉ xs) :
    xs.orderedInsert (· ≤ ·) j < xs ++ [i] := by
  induction xs with
  | nil => exact List.cons_lt_cons_iff.mpr (.inl hlt)
  | cons x xs ih =>
    rw [List.mem_cons, not_or] at hnew
    rw [List.orderedInsert_cons, List.cons_append]
    split_ifs with hle
    · exact List.cons_lt_cons_iff.mpr (.inl (lt_of_le_of_ne hle hnew.1))
    · exact List.cons_lt_cons_iff.mpr (.inr ⟨rfl, ih hnew.2⟩)

theorem pairwise_orderedInsert_lt {xs : List Nat} {j : Nat} (h : xs.Pairwise (· < ·))
    (hnew : j ∉ xs) : (xs.orderedInsert (· ≤ ·) j).Pairwise (· < ·) := by
  have hnodup : (xs.orderedInsert (· ≤ ·) j).Nodup :=
    (List.perm_orderedInsert _ j xs).nodup_iff.mpr
      (List.nodup_cons.mpr ⟨hnew, h.imp Nat.ne_of_lt⟩)
  have hle := (h.imp Nat.le_of_lt).orderedInsert j xs
  exact (hle.and hnodup).imp fun h => lt_of_le_of_ne h.1 h.2

/-- When a wild comes in for the last entry of a choice, the choice is worth no less. -/
theorem IsChoice.exists_orderedInsert {rest : List Nat} {i j : Nat} {value : HandRank}
    (h : IsChoice pool (rest ++ [i]) cards) (hvalue : evaluate cards = .ok value)
    (hwild : pool[j]? = some .wild) (hnew : j ∉ rest) :
    ∃ cards' value', IsChoice pool (rest.orderedInsert (· ≤ ·) j) cards' ∧
      evaluate cards' = .ok value' ∧ value ≤ value' := by
  have hinsert : (rest.orderedInsert (· ≤ ·) j).Perm (j :: rest) :=
    List.perm_orderedInsert _ j rest
  have hascending := pairwise_orderedInsert_lt (List.pairwise_append.mp h.ascending).1 hnew
  obtain ⟨cards', hchoice⟩ : ∃ cards', IsChoice pool (rest.orderedInsert (· ≤ ·) j) cards' := by
    refine exists_isChoice_of_lt hascending fun p hp => ?_
    rcases List.mem_cons.mp (hinsert.mem_iff.mp hp) with rfl | hp
    · exact (List.getElem?_eq_some_iff.mp hwild).1
    · exact h.lt_length p (List.mem_append_left _ hp)
  obtain ⟨entry, -, hperm⟩ := h.exists_perm_cons List.perm_append_comm
  obtain ⟨entry', hentry', hperm'⟩ := hchoice.exists_perm_cons hinsert
  obtain rfl : .wild = entry' := Option.some.inj (hwild.symm.trans hentry')
  obtain ⟨value', hvalue', hle⟩ := exists_evaluate_le_of_wild hvalue hperm hperm'
  exact ⟨cards', value', hchoice, hvalue', hle⟩

/-! ### What is left out -/

/-- Every selected position comes before every wild that is left out. -/
theorem lt_of_wild_of_notMem (hok : (selectBest pool k).outcome = .ok b) {j : Nat}
    (hwild : pool[j]? = some .wild) (hj : j ∉ b.indices) : ∀ i ∈ b.indices, i < j := by
  obtain ⟨hchoice, hlength, hvalue⟩ := selectBest_isChoice hok
  rcases List.eq_nil_or_concat' b.indices with hindices | ⟨rest, last, hindices⟩
  · rw [hindices]
    exact fun i hi => absurd hi List.not_mem_nil
  rw [hindices] at hchoice hlength hj ⊢
  rw [List.mem_append, List.mem_singleton, not_or] at hj
  have hlast : last < j := by
    refine lt_of_le_of_ne (Nat.le_of_not_lt fun hlt => ?_) (Ne.symm hj.2)
    -- otherwise the wild comes in for the last entry, in a choice that comes first
    obtain ⟨cards', value', hchoice', hvalue', hle⟩ :=
      hchoice.exists_orderedInsert hvalue hwild hj.1
    have hlength' : (rest.orderedInsert (· ≤ ·) j).length = k := by
      rw [List.orderedInsert_length, ← hlength, List.length_append, List.length_singleton]
    obtain ⟨rank, hrank, -, hfirst⟩ := exists_evaluate_le_of_isChoice hok hchoice' hlength'
    obtain rfl := Except.ok.inj (hvalue'.symm.trans hrank)
    rw [hindices] at hfirst
    exact not_lt_of_ge (hfirst hle) (orderedInsert_lt_concat hlt hj.1)
  intro i hi
  rcases List.mem_append.mp hi with hi | hi
  · exact ((List.pairwise_append.mp hchoice.ascending).2.2 i hi last List.mem_cons_self).trans hlast
  · rwa [List.mem_singleton.mp hi]

/-- The entries that are left out before a selected position are different naturals. -/
theorem length_filter_notMem_le (hok : (selectBest pool handSize).outcome = .ok b) {i : Nat}
    (hi : i ∈ b.indices) : ((List.range i).filter (· ∉ b.indices)).length ≤ 52 := by
  obtain ⟨-, hnodup⟩ := exists_selectBest_eq_ok_iff.mp ⟨b, hok⟩
  have hlength := (selectBest_isChoice hok).1.lt_length i hi
  obtain ⟨entries, hentries⟩ : ∃ entries,
      IsChoice pool ((List.range i).filter (· ∉ b.indices)) entries := by
    refine exists_isChoice_of_lt (List.pairwise_lt_range.filter _) fun p hp => ?_
    exact (List.mem_range.mp (List.mem_of_mem_filter hp)).trans hlength
  have hnaturals : entries.countP HandCard.isWild = 0 := by
    refine List.countP_eq_zero.mpr fun entry hentry => ?_
    have hmem : some entry ∈ ((List.range i).filter (· ∉ b.indices)).map (pool[·]?) :=
      hentries.holds ▸ List.mem_map_of_mem hentry
    obtain ⟨p, hp, hpool⟩ := List.mem_map.mp hmem
    obtain ⟨hlt, hnot⟩ := List.mem_filter.mp hp
    cases entry with
    | natural => exact Bool.false_ne_true
    | wild =>
      have hgt := lt_of_wild_of_notMem hok hpool (of_decide_eq_true hnot) i hi
      exact absurd (List.mem_range.mp hlt) (Nat.lt_asymm hgt)
  have hsum := length_naturals_add_wilds entries
  rw [hnaturals, Nat.add_zero, ← hentries.length_eq] at hsum
  exact hsum ▸ length_le_of_nodup (hnodup.sublist (hentries.sublist.filterMap _))

/-- No selected position is above 56: before it there are four selected ones at most, and at most
52 that are left out. -/
theorem le_of_mem_indices (hok : (selectBest pool handSize).outcome = .ok b) :
    ∀ i ∈ b.indices, i ≤ 56 := by
  intro i hi
  have hselected : (i :: (List.range i).filter (· ∈ b.indices)).length ≤ handSize := by
    have hnodup : (i :: (List.range i).filter (· ∈ b.indices)).Nodup :=
      List.nodup_cons.mpr ⟨by simp, List.nodup_range.filter _⟩
    rw [← (selectBest_isChoice hok).2.1]
    refine (List.subperm_of_subset hnodup (List.cons_subset.mpr ⟨hi, fun p hp => ?_⟩)).length_le
    exact of_decide_eq_true (List.mem_filter.mp hp).2
  have hleft := length_filter_notMem_le hok hi
  have hsplit := (List.filter_append_perm (· ∈ b.indices) (List.range i)).length_eq
  rw [List.length_append, List.length_range] at hsplit
  rw [List.length_cons, handSize] at hselected
  simp only [decide_not] at hleft
  omega

/-! ### Words -/

/-- The number whose set bits are the given positions, as 64-bit arithmetic computes it. There, a
shift by 64 or more would set another bit. -/
def wordOf (positions : List Nat) : UInt64 :=
  positions.foldl (fun bits i => bits ||| 1 <<< UInt64.ofNat i) 0

theorem toNat_one_shiftLeft {i : Nat} (h : i < 64) :
    ((1 : UInt64) <<< UInt64.ofNat i).toNat = 1 <<< i := by
  have hi : (UInt64.ofNat i).toNat = i := UInt64.toNat_ofNat_of_lt' (h.trans (by decide))
  rw [UInt64.toNat_shiftLeft, hi, Nat.mod_eq_of_lt h, UInt64.toNat_one, Nat.one_shiftLeft,
    Nat.mod_eq_of_lt (Nat.pow_lt_pow_right (by decide) h)]

/-- For positions below 64 the arithmetic of words is exact. -/
theorem toNat_wordOf {positions : List Nat} (h : ∀ i ∈ positions, i < 64) :
    (wordOf positions).toNat = bitfieldOf positions := by
  have hfold (bits : UInt64) :
      (positions.foldl (fun bits i => bits ||| 1 <<< UInt64.ofNat i) bits).toNat =
        positions.foldl (fun bits i => bits ||| 1 <<< i) bits.toNat := by
    induction positions generalizing bits with
    | nil => rfl
    | cons i positions ih =>
      obtain ⟨hi, hrest⟩ := List.forall_mem_cons.mp h
      rw [List.foldl_cons, List.foldl_cons, ih hrest, UInt64.toNat_or, toNat_one_shiftLeft hi]
  exact hfold 0

/-- **The bitfield of a selection never overflows.** However long the pool is, no selected position
is above 56. So no shift reaches 64, the arithmetic of words gives the bitfield exactly, and of its
64 bits five are set: those of the selected positions. -/
theorem selectBest_bitfield (hok : (selectBest pool 5).outcome = .ok b) :
    (∀ i ∈ b.indices, i ≤ 56 ∧ i < 64) ∧ (wordOf b.indices).toNat = b.bitfield ∧
      (List.range 64).countP b.bitfield.testBit = 5 ∧
      ∀ i, b.bitfield.testBit i = true ↔ i ∈ b.indices := by
  have hle : ∀ i ∈ b.indices, i ≤ 56 := le_of_mem_indices hok
  have hlt : ∀ i ∈ b.indices, i < 64 := fun i hi => (hle i hi).trans_lt (by decide)
  obtain ⟨hchoice, hlength, -⟩ := selectBest_isChoice hok
  refine ⟨fun i hi => ⟨hle i hi, hlt i hi⟩, toNat_wordOf hlt, ?_, fun i => ?_⟩
  · rw [List.countP_eq_length_filter, BestHand.bitfield,
      filter_testBit_bitfieldOf hchoice.ascending hlt, hlength]
  · rw [BestHand.bitfield, testBit_bitfieldOf, decide_eq_true_iff]

/-- Five of six wilds make a royal flush, and the first five of them are selected. -/
theorem selectBest_bitfield_wilds :
    ∃ b, (selectBest [.wild, .natural ⟨.clubs, .two⟩, .wild, .wild, .wild, .wild, .wild] 5).outcome =
        .ok b ∧ b.indices = [0, 2, 3, 4, 5] ∧ b.bitfield = 61 ∧
      (wordOf b.indices).toNat = b.bitfield ∧ (List.range 64).countP b.bitfield.testBit = 5 := by
  obtain ⟨b, hok⟩ : ∃ b, (selectBest [.wild, .natural ⟨.clubs, .two⟩, .wild, .wild, .wild, .wild,
      .wild] 5).outcome = .ok b := ⟨_, rfl⟩
  obtain ⟨-, hword, hfive, -⟩ := selectBest_bitfield hok
  obtain rfl := Except.ok.inj hok
  exact ⟨_, rfl, rfl, rfl, hword, hfive⟩

end CaliforniaPoker
