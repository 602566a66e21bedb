import CaliforniaPoker.Json.HandForm
import CaliforniaPoker.Proofs.Discard
import Mathlib.Data.Multiset.Sort

/-!
# The forms of a discard set

A discard set can be given by its positions, by the positions that are kept, or by a byte. This file
shows what each of them accepts, and that each of them gives the discard set back from the form in
which it has it. For the positions that are kept only their number and their bound are looked at
ahead; that none of them may occur twice comes out when the other positions are counted.

## Main definitions

* `DiscardChoice.IsSplit`: the positions that a discard set has and those that it keeps make up the
  pool, and each form gives the discard set back.

## Main results

* `DiscardChoice.exists_ofIndices_iff`: four different positions of the pool, and no others.
* `DiscardChoice.ofIndices_congr`: the order in which positions are given does not matter.
* `DiscardChoice.ofKeep_eq_ok_iff`, `DiscardChoice.ofBitfield_eq_ok_iff`: the discard sets that the
  other two forms stand for.
* `discardChoice_forms`: the three forms agree.
-/

namespace CaliforniaPoker

namespace DiscardChoice

variable {positions positions' keep : List Nat} {bits : UInt8} {d : DiscardChoice}

/-! ### Positions -/

/-- Positions are accepted exactly when they are four different ones of the pool. -/
theorem exists_ofIndices_iff : (∃ d, ofIndices positions = .ok d) ↔
    positions.length = discardSize ∧ positions.Nodup ∧ ∀ i ∈ positions, i < poolSize := by
  simp only [ofIndices_eq_ok_iff]
  constructor
  · rintro ⟨d, hperm⟩
    refine ⟨hperm.length_eq.symm.trans d.length_eq, ?_, fun i hi => d.below i ?_⟩
    · exact hperm.nodup_iff.mp (d.ascending.imp Nat.ne_of_lt)
    · exact hperm.mem_iff.mpr hi
  · rintro ⟨hlength, hnodup, hbelow⟩
    exact exists_indices_perm hlength hnodup hbelow

/-- The order of the positions matters neither to what they give nor to why they are refused. -/
theorem ofIndices_congr (h : positions.Perm positions') :
    ofIndices positions = ofIndices positions' := by
  have hsorted : positions.mergeSort = positions'.mergeSort :=
    congrArg (Multiset.sort · (· ≤ ·)) (Multiset.coe_eq_coe.mpr h)
  simp only [ofIndices, h.length_eq, hsorted]

/-! ### Positions that are kept -/

/-- The positions of a discard set and those that it keeps are the positions of the pool. -/
theorem indices_append_keepIndices_perm (d : DiscardChoice) :
    (d.indices ++ d.keepIndices).Perm (List.range poolSize) := by
  conv_lhs => rw [← d.filter_contains]
  exact List.filter_append_perm d.contains (List.range poolSize)

theorem keepIndices_pairwise (d : DiscardChoice) : d.keepIndices.Pairwise (· < ·) :=
  List.pairwise_lt_range.filter _

theorem length_keepIndices (d : DiscardChoice) :
    d.keepIndices.length = poolSize - discardSize := by
  have hlength := d.indices_append_keepIndices_perm.length_eq
  rw [List.length_append, d.length_eq, List.length_range] at hlength
  exact Nat.eq_sub_of_add_eq' hlength

theorem mem_keepIndices_iff {i : Nat} : i ∈ d.keepIndices ↔ i < poolSize ∧ i ∉ d.indices := by
  simp [keepIndices_eq]

/-- Positions to keep give a discard set exactly when they are those that it keeps, in some
order. -/
theorem ofKeep_eq_ok_iff : ofKeep keep = .ok d ↔ d.keepIndices.Perm keep := by
  constructor
  · intro h
    rw [ofKeep] at h
    split_ifs at h with hwrong
    rw [ofIndices_eq_ok_iff] at h
    -- the positions that `d` keeps are among those given, and there are no fewer of them
    have hsub : d.keepIndices ⊆ keep := by
      intro i hi
      obtain ⟨hlt, hnot⟩ := mem_keepIndices_iff.mp hi
      by_contra hkeep
      exact hnot (h.mem_iff.mpr (by simp [hlt, hkeep]))
    have hnodup : d.keepIndices.Nodup := d.keepIndices_pairwise.imp Nat.ne_of_lt
    refine (List.subperm_of_subset hnodup hsub).perm_of_length_le ?_
    rw [length_keepIndices]
    simp only [Bool.or_eq_true, decide_eq_true_eq, not_or, not_not] at hwrong
    exact hwrong.1.le
  · intro hperm
    have hlength : keep.length = poolSize - discardSize :=
      hperm.length_eq.symm.trans d.length_keepIndices
    have hkeep {i : Nat} : i ∈ keep ↔ i < poolSize ∧ i ∉ d.indices :=
      hperm.mem_iff.symm.trans mem_keepIndices_iff
    have hindices : (List.range poolSize).filter (· ∉ keep) = d.indices :=
      filter_range_eq d.ascending fun i => by
        rw [decide_eq_true_iff, hkeep]
        have hbelow := d.below i
        tauto
    rw [ofKeep, if_neg (by simp +contextual [hlength, hkeep]), hindices, ofIndices_indices]

/-- Positions to keep are accepted exactly when they could be given as those of a discard set. -/
theorem exists_ofKeep_iff : (∃ d, ofKeep keep = .ok d) ↔ ∃ d, ofIndices keep = .ok d := by
  simp only [ofKeep_eq_ok_iff, ofIndices_eq_ok_iff]
  constructor
  · rintro ⟨d, hperm⟩
    exact ⟨⟨d.keepIndices, d.length_keepIndices, d.keepIndices_pairwise,
      fun i hi => (mem_keepIndices_iff.mp hi).1⟩, hperm⟩
  · rintro ⟨kept, hperm⟩
    obtain ⟨d, hd⟩ := exists_keepIndices_eq kept.ascending kept.below kept.length_eq
    exact ⟨d, hd ▸ hperm⟩

/-! ### Bytes -/

/-- The arithmetic of bytes is exact. -/
theorem toNat_bitfield (d : DiscardChoice) : d.bitfield.toNat = bitfieldOf d.indices := by
  refine UInt8.toNat_ofNat_of_lt' (Nat.lt_pow_two_of_testBit (n := 8) _ fun i hi => ?_)
  rw [testBit_bitfieldOf, decide_eq_false_iff_not]
  exact fun hmem => absurd (d.below i hmem) (Nat.not_lt_of_le hi)

/-- A byte gives a discard set exactly when it is the byte of it. -/
theorem ofBitfield_eq_ok_iff : ofBitfield bits = .ok d ↔ d.bitfield = bits := by
  rw [ofBitfield, ofIndices_eq_ok_iff, ← UInt8.toNat_inj, toNat_bitfield]
  constructor
  · intro hperm
    refine Nat.eq_of_testBit_eq fun i => ?_
    rw [testBit_bitfieldOf, Bool.eq_iff_iff, decide_eq_true_iff, hperm.mem_iff, List.mem_filter,
      List.mem_range]
    refine and_iff_right_of_imp fun hbit => ?_
    by_contra hi
    have hlt : bits.toNat < 2 ^ i :=
      bits.toNat_lt.trans_le (Nat.pow_le_pow_right Nat.two_pos (Nat.le_of_not_lt hi))
    exact absurd (hbit.symm.trans (Nat.testBit_lt_two_pow hlt)) Bool.noConfusion
  · intro hbits
    rw [← hbits, filter_testBit_bitfieldOf d.ascending d.below]

/-- A byte is accepted exactly when four of its bits are set. -/
theorem exists_ofBitfield_iff : (∃ d, ofBitfield bits = .ok d) ↔
    (List.range poolSize).countP bits.toNat.testBit = discardSize := by
  rw [List.countP_eq_length_filter]
  refine exists_ofIndices_iff.trans (and_iff_left ⟨List.nodup_range.filter _, fun i hi => ?_⟩)
  exact List.mem_range.mp (List.mem_of_mem_filter hi)

/-! ### JSON -/

/-- In JSON a discard set is given by the list of its positions, in any order. -/
theorem ofJson?_eq_some_iff {j : Json} : ofJson? j = some d ↔
    ∃ positions : List Nat, ofJson? j = some positions ∧ d.indices.Perm positions := by
  change (ofJson? j).bind (fun positions => (ofIndices positions).toOption) = some d ↔ _
  rw [Option.bind_eq_some_iff]
  refine exists_congr fun positions => and_congr_right fun _ => ?_
  rw [← ofIndices_eq_ok_iff]
  cases ofIndices positions <;> simp [Except.toOption]

/-! ### All forms -/

/-- A discard set and what it keeps are the pool, and each of its forms gives it back. -/
structure IsSplit (d : DiscardChoice) : Prop where
  /-- The positions of the discard set ascend. -/
  indices_ascending : d.indices.Pairwise (· < ·)
  /-- The positions that it keeps ascend. -/
  keep_ascending : d.keepIndices.Pairwise (· < ·)
  /-- No position is both. -/
  disjoint : d.indices.Disjoint d.keepIndices
  /-- Every position of the pool is one of them, and no other number is. -/
  whole : ∀ i, i ∈ d.indices ∨ i ∈ d.keepIndices ↔ i < 8
  /-- A number is found in the discard set exactly when it is one of its positions. -/
  contains_iff : ∀ i, d.contains i = true ↔ i ∈ d.indices
  /-- The positions give the discard set back. -/
  ofIndices : ofIndices d.indices = .ok d
  /-- So do the positions that are kept. -/
  ofKeep : ofKeep d.keepIndices = .ok d
  /-- So does the byte. -/
  ofBitfield : ofBitfield d.bitfield = .ok d

theorem isSplit (d : DiscardChoice) : d.IsSplit where
  indices_ascending := d.ascending
  keep_ascending := d.keepIndices_pairwise
  disjoint := fun i hi hkeep => (mem_keepIndices_iff.mp hkeep).2 hi
  whole := fun i => by
    have hperm := d.indices_append_keepIndices_perm.mem_iff (a := i)
    rwa [List.mem_append, List.mem_range] at hperm
  contains_iff := fun i => List.contains_iff_mem
  ofIndices := d.ofIndices_indices
  ofKeep := ofKeep_eq_ok_iff.mpr (List.Perm.refl _)
  ofBitfield := ofBitfield_eq_ok_iff.mpr rfl

end DiscardChoice

open DiscardChoice in
/-- **The forms of a discard set agree.** Positions are accepted exactly when they are four different
ones of the pool; the discard set has them in ascending order, and neither it nor the reason for a
refusal depends on the order in which they are given. Positions to keep are accepted under the same
condition, and they are what is then kept. A byte is accepted exactly when four of its bits are set,
and it is the byte of the discard set. JSON gives the discard set of the positions that it lists.
However a discard set came about, its positions and those that it keeps split the pool, every form
gives it back, and the list of all discard sets, which is in ascending order, has it once. -/
theorem discardChoice_forms :
    (∀ positions : List Nat,
      ((∃ d, ofIndices positions = .ok d) ↔
        positions.length = 4 ∧ positions.Nodup ∧ ∀ i ∈ positions, i < 8) ∧
      (∀ d, ofIndices positions = .ok d → d.indices.Perm positions) ∧
      ∀ positions', positions'.Perm positions → ofIndices positions' = ofIndices positions) ∧
    (∀ keep : List Nat,
      ((∃ d, ofKeep keep = .ok d) ↔ keep.length = 4 ∧ keep.Nodup ∧ ∀ i ∈ keep, i < 8) ∧
      ∀ d, ofKeep keep = .ok d → d.keepIndices.Perm keep) ∧
    (∀ bits : UInt8,
      ((∃ d, ofBitfield bits = .ok d) ↔ (List.range 8).countP bits.toNat.testBit = 4) ∧
      ∀ d, ofBitfield bits = .ok d → d.bitfield = bits) ∧
    (∀ (j : Json) (d : DiscardChoice), ofJson? j = some d ↔
      ∃ positions : List Nat, ofJson? j = some positions ∧ d.indices.Perm positions) ∧
    (∀ d : DiscardChoice, d.IsSplit ∧ discardChoices.count d = 1) ∧
    discardChoices.Pairwise fun d d' => d.indices < d'.indices := by
  refine ⟨fun positions => ⟨exists_ofIndices_iff, fun d => ofIndices_eq_ok_iff.mp, ?_⟩,
    fun keep => ⟨exists_ofKeep_iff.trans exists_ofIndices_iff, fun d => ofKeep_eq_ok_iff.mp⟩,
    fun bits => ⟨exists_ofBitfield_iff, fun d => ofBitfield_eq_ok_iff.mp⟩,
    fun j d => ofJson?_eq_some_iff, fun d => ⟨d.isSplit, ?_⟩, pairwise_discardChoices⟩
  · exact fun positions' => ofIndices_congr
  · refine List.count_eq_one_of_mem ?_ (mem_discardChoices d)
    refine pairwise_discardChoices.imp ?_
    rintro d _ hlt rfl
    exact lt_irrefl _ hlt

/-- The even positions are handed over: they are given in some order, as what is left by the odd
ones, and as a byte. A position given twice is refused in every order. -/
theorem discardChoice_forms_even :
    ∃ d, DiscardChoice.ofIndices [6, 0, 4, 2] = .ok d ∧ d.indices = [0, 2, 4, 6] ∧
      d.keepIndices = [1, 3, 5, 7] ∧ DiscardChoice.ofKeep [1, 3, 5, 7] = .ok d ∧
      DiscardChoice.ofBitfield 0x55 = .ok d ∧ discardChoices.count d = 1 ∧
      DiscardChoice.ofIndices [5, 3, 1, 1] = DiscardChoice.ofIndices [1, 3, 1, 5] ∧
      ¬ ∃ d, DiscardChoice.ofIndices [1, 3, 1, 5] = .ok d := by
  obtain ⟨hpositions, -, -, -, hall, -⟩ := discardChoice_forms
  let d : DiscardChoice := ⟨[0, 2, 4, 6], rfl, by decide, by decide⟩
  obtain ⟨hsplit, hcount⟩ := hall d
  have hany : DiscardChoice.ofIndices [6, 0, 4, 2] = .ok d :=
    ((hpositions d.indices).2.2 _ (by decide)).trans hsplit.ofIndices
  refine ⟨d, hany, rfl, rfl, hsplit.ofKeep, hsplit.ofBitfield, hcount, ?_, ?_⟩
  · exact (hpositions _).2.2 _ (by decide)
  · exact (hpositions _).1.not.mpr (by decide)

end CaliforniaPoker
