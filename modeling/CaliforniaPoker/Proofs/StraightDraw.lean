import CaliforniaPoker.Proofs.KeepScore
import Mathlib.Order.Interval.Finset.Nat

/-!
# Straight draws

The straight potential of some values is found by sorting them, cutting the sorted list where it
leaves out a value, and taking the longest piece; it competes with a draw to the wheel. This file
shows that it depends on which values there are, and on nothing else: the longest piece is as long
as the longest stretch of consecutive values that all occur.

## Main definitions

* `HasRun`: some consecutive values all occur.
* `lowValues`: the values two to five that occur.

## Main results

* `succ_mem_of_mem_piece`: the pieces of a descending list are cut only where a value is missing.
* `isGreatest_longestRun`: the longest run is the greatest number of consecutive values.
* `straightPotential_mono`, `straightPotential_congr`: more values make no shorter draw, and the
  same values make the same draw.
* `straightPotential_eq_max`: the straight potential as its two kinds of draw.
-/

namespace CaliforniaPoker

variable {values values' : List Nat} {m : Nat}

/-! ### Consecutive values -/

/-- Some `m` consecutive values all occur. -/
def HasRun (values : List Nat) (m : Nat) : Prop := ∃ v, ∀ i < m, v + i ∈ values

theorem HasRun.mono (h : HasRun values m) (hsub : values ⊆ values') : HasRun values' m := by
  obtain ⟨v, hv⟩ := h
  exact ⟨v, fun i hi => hsub (hv i hi)⟩

/-- A list in which each value is one above the next is a run down to its last value. -/
theorem exists_run_of_isChain {first : Nat} {rest : List Nat}
    (h : (first :: rest).IsChain fun a b => (a == b + 1) = true) :
    ∃ v, first = v + rest.length ∧ ∀ i ≤ rest.length, v + i ∈ first :: rest := by
  induction rest generalizing first with
  | nil => exact ⟨first, rfl, by simp⟩
  | cons second rest ih =>
    obtain ⟨hstep, hchain⟩ := List.isChain_cons_cons.mp h
    obtain ⟨v, hsecond, hv⟩ := ih hchain
    have hfirst : first = v + (second :: rest).length := by
      rw [eq_of_beq hstep, hsecond, List.length_cons, Nat.add_assoc]
    refine ⟨v, hfirst, fun i hi => ?_⟩
    rcases Nat.lt_or_eq_of_le hi with hlt | rfl
    · exact List.mem_cons_of_mem _ (hv i (Nat.le_of_lt_succ hlt))
    · exact hfirst ▸ List.mem_cons_self

/-- Where a descending list is cut into pieces, each time because the next value is not the next
lower number, a piece that has a value also has the next higher number if this occurs at all. -/
theorem succ_mem_of_mem_piece {pieces : List (List Nat)} {piece : List Nat} {v : Nat}
    (hdescends : pieces.flatten.Pairwise (· > ·))
    (hcut : pieces.IsChain fun a b => ∃ ha hb, (a.getLast ha == b.head hb + 1) = false)
    (hpiece : piece ∈ pieces) (hv : v ∈ piece) (hsucc : v + 1 ∈ pieces.flatten) :
    v + 1 ∈ piece := by
  induction pieces with
  | nil => exact absurd hpiece List.not_mem_nil
  | cons first rest ih =>
    rw [List.flatten_cons, List.pairwise_append] at hdescends
    obtain ⟨hfirst, hrest, hacross⟩ := hdescends
    rw [List.flatten_cons, List.mem_append] at hsucc
    rcases List.mem_cons.mp hpiece with rfl | hpiece
    · exact hsucc.resolve_right fun hlater => absurd (hacross v hv _ hlater) (by omega)
    · rcases hsucc with hsucc | hsucc
      · -- the cut behind `v + 1` would lie between `v + 1` and `v`
        have hlater : v ∈ rest.flatten := List.mem_flatten_of_mem hpiece hv
        cases rest with
        | nil => exact absurd hpiece List.not_mem_nil
        | cons second rest =>
          obtain ⟨⟨hne, hne', hgap⟩, -⟩ := List.isChain_cons_cons.mp hcut
          have hmem : second.head hne' ∈ (second :: rest).flatten :=
            List.mem_flatten_of_mem List.mem_cons_self (List.head_mem hne')
          have hlast : first.getLast hne = v + 1 := by
            have hle : first.getLast hne ≤ v + 1 :=
              (hfirst.imp Nat.le_of_lt).rel_getLast (R := (· ≥ ·)) hsucc
            exact Nat.le_antisymm hle (hacross _ (List.getLast_mem hne) v hlater)
          have hhead : second.head hne' = v := by
            have hle := (hrest.imp Nat.le_of_lt).rel_head (R := (· ≥ ·)) hlater
            simp only [List.flatten_cons, List.head_append_of_ne_nil hne'] at hle
            exact Nat.le_antisymm (Nat.le_of_lt_succ (hacross _ hsucc _ hmem)) hle
          rw [hlast, hhead, beq_self_eq_true] at hgap
          exact absurd hgap Bool.noConfusion
      · exact ih hrest hcut.tail hpiece hsucc

/-- Consecutive values are in one of the pieces. -/
theorem exists_piece_of_run {pieces : List (List Nat)} {v : Nat}
    (hdescends : pieces.flatten.Pairwise (· > ·))
    (hcut : pieces.IsChain fun a b => ∃ ha hb, (a.getLast ha == b.head hb + 1) = false)
    (hm : 0 < m) (hv : ∀ i < m, v + i ∈ pieces.flatten) : ∃ piece ∈ pieces, m ≤ piece.length := by
  obtain ⟨piece, hpiece, hstart⟩ := List.mem_flatten.mp (hv 0 hm)
  have hall : ∀ i < m, v + i ∈ piece := by
    intro i hi
    induction i with
    | zero => exact hstart
    | succ i ih =>
      exact succ_mem_of_mem_piece hdescends hcut hpiece (ih (Nat.lt_of_succ_lt hi)) (hv (i + 1) hi)
  have hsub : List.range' v m ⊆ piece := by
    intro x hx
    obtain ⟨hle, hlt⟩ := List.mem_range'_1.mp hx
    exact Nat.add_sub_cancel' hle ▸ hall (x - v) (Nat.sub_lt_left_of_lt_add hle hlt)
  refine ⟨piece, hpiece, ?_⟩
  simpa using (List.subperm_of_subset List.nodup_range' hsub).length_le

/-! ### The longest run -/

/-- Insertion sorts as well, and can be computed with. -/
theorem mergeSort_ge_eq_insertionSort (values : List Nat) :
    values.mergeSort (fun a b => b ≤ a) = values.insertionSort (· ≥ ·) :=
  List.mergeSort_eq_insertionSort (· ≥ ·) values

theorem foldl_max_eq_or_mem (xs : List Nat) (start : Nat) :
    xs.foldl max start = start ∨ xs.foldl max start ∈ xs := by
  induction xs generalizing start with
  | nil => exact .inl rfl
  | cons x xs ih =>
    rw [List.foldl_cons]
    rcases ih (max start x) with h | h
    · rw [h]
      exact (max_choice start x).imp_right fun hx => List.mem_cons.mpr (.inl hx)
    · exact .inr (List.mem_cons_of_mem x h)

/-- The longest run is as long as consecutive values that occur can be. -/
theorem isGreatest_longestRun (values : List Nat) :
    IsGreatest {m | HasRun values m} (longestRun values) := by
  have hflatten := List.flatten_splitBy (fun a b => a == b + 1) (distinctDescending values)
  have hcut := List.isChain_getLast_head_splitBy (fun a b => a == b + 1) (distinctDescending values)
  have hchain (piece : List Nat) := List.isChain_of_mem_splitBy (m := piece)
    (r := fun a b => a == b + 1) (l := distinctDescending values)
  have hne := List.nil_notMem_splitBy (fun a b => a == b + 1) (distinctDescending values)
  rw [longestRun]
  generalize (distinctDescending values).splitBy (fun a b => a == b + 1) = pieces at *
  have hmem {v : Nat} : v ∈ pieces.flatten ↔ v ∈ values := by
    rw [hflatten, mem_distinctDescending]
  constructor
  · rcases foldl_max_eq_or_mem (pieces.map List.length) 0 with hzero | hlongest
    · exact ⟨0, fun i hi => absurd (hzero ▸ hi) (Nat.not_lt_zero i)⟩
    · obtain ⟨piece, hpiece, hlength⟩ := List.mem_map.mp hlongest
      obtain ⟨first, rest, rfl⟩ := List.exists_cons_of_ne_nil fun h => hne (h ▸ hpiece)
      obtain ⟨v, -, hv⟩ := exists_run_of_isChain (hchain _ hpiece)
      refine ⟨v, fun i hi => hmem.mp (List.mem_flatten_of_mem hpiece (hv i ?_))⟩
      rw [← hlength, List.length_cons] at hi
      exact Nat.le_of_lt_succ hi
  · rintro m ⟨v, hv⟩
    rcases Nat.eq_zero_or_pos m with rfl | hm
    · exact Nat.zero_le _
    · obtain ⟨piece, hpiece, hle⟩ := exists_piece_of_run
        (hflatten ▸ distinctDescending_pairwise values) hcut hm fun i hi => hmem.mpr (hv i hi)
      exact hle.trans ((foldl_max_le_iff.mp le_rfl).2 _ (List.mem_map_of_mem hpiece))

/-! ### The draw to the wheel -/

/-- The values two to five that occur. -/
def lowValues (values : List Nat) : Finset Nat := {v ∈ Finset.Icc 2 5 | v ∈ values}

theorem lowValues_mono (hsub : values ⊆ values') : lowValues values ⊆ lowValues values' :=
  Finset.monotone_filter_right _ fun _ _ hv => hsub hv

theorem card_lowValues (values : List Nat) :
    (lowValues values).card = [2, 3, 4, 5].countP fun v => values.contains v := by
  simp only [List.countP_eq_length_filter, List.contains_eq_mem]
  rfl

theorem wheelDraw_eq (values : List Nat) : wheelDraw values =
    if 14 ∈ values ∧ 2 ≤ (lowValues values).card then (lowValues values).card else 0 := by
  simp only [wheelDraw, card_lowValues, Bool.and_eq_true, List.contains_iff_mem,
    decide_eq_true_eq]
  rfl

theorem wheelDraw_mono (hsub : values ⊆ values') : wheelDraw values ≤ wheelDraw values' := by
  have hcard := Finset.card_le_card (lowValues_mono hsub)
  rw [wheelDraw_eq, wheelDraw_eq]
  split_ifs with h h'
  · exact hcard
  · exact absurd ⟨hsub h.1, h.2.trans hcard⟩ h'
  · exact Nat.zero_le _
  · exact Nat.zero_le _

/-! ### The straight potential -/

/-- More values make no shorter draw. -/
theorem straightPotential_mono (hsub : values ⊆ values') :
    straightPotential values ≤ straightPotential values' := by
  have hrun : longestRun values ≤ longestRun values' :=
    (isGreatest_longestRun values').2 ((isGreatest_longestRun values).1.mono hsub)
  exact max_le_max hrun (wheelDraw_mono hsub)

/-- The same values make the same draw, in whatever order and however often they occur. -/
theorem straightPotential_congr (h : ∀ v, v ∈ values ↔ v ∈ values') :
    straightPotential values = straightPotential values' :=
  le_antisymm (straightPotential_mono fun v => (h v).mp) (straightPotential_mono fun v => (h v).mpr)

/-- **The straight potential is the longest draw.** It is the greatest number of consecutive values
that all occur, or the number of the values two to five if there are at least two of them and an
ace, whichever is greater. So it depends neither on the order of the values nor on how often they
occur, and more values never lower it. -/
theorem straightPotential_eq_max (values : List Nat) :
    (∃ run, IsGreatest {m | ∃ v, ∀ i < m, v + i ∈ values} run ∧ straightPotential values =
      max run (if 14 ∈ values ∧ 2 ≤ (lowValues values).card then (lowValues values).card else 0)) ∧
    (∀ values', (∀ v, v ∈ values' ↔ v ∈ values) →
      straightPotential values' = straightPotential values) ∧
    ∀ values', values ⊆ values' → straightPotential values ≤ straightPotential values' := by
  refine ⟨⟨longestRun values, isGreatest_longestRun values, ?_⟩, fun _ => straightPotential_congr,
    fun _ => straightPotential_mono⟩
  rw [straightPotential, wheelDraw_eq]

/-- An ace with two, three and five is a draw of three, and it stays one with a three too many and
in another order. A four makes it longer. -/
theorem straightPotential_eq_max_wheel :
    straightPotential [14, 2, 9, 3, 5] = 3 ∧ straightPotential [3, 5, 14, 2, 3, 9] = 3 ∧
      3 ≤ straightPotential [14, 2, 9, 3, 5, 4] := by
  have hthree : straightPotential [14, 2, 9, 3, 5] = 3 := by
    simp only [straightPotential, longestRun, distinctDescending, mergeSort_ge_eq_insertionSort]
    decide
  obtain ⟨-, hsame, hmore⟩ := straightPotential_eq_max [14, 2, 9, 3, 5]
  refine ⟨hthree, (hsame _ fun v => ?_).trans hthree, hthree.ge.trans (hmore _ (by decide))⟩
  simp only [List.mem_cons, List.not_mem_nil]
  tauto

end CaliforniaPoker
