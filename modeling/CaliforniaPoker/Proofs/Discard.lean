import CaliforniaPoker.Discard
import CaliforniaPoker.Proofs.Combinations
import Mathlib.Data.List.Lex

/-!
# Discard sets and what they keep

A discard set is determined by its positions, and the list of all discard sets has them all, in
lexicographic order. A discard set splits a pool of eight cards into four that are kept and four
that are handed over, both in the order of the pool.

## Main results

* `DiscardChoice.ofIndices_eq_ok_iff`: a discard set is what its positions give in any order.
* `DiscardChoice.exists_indices_perm`: any four different positions of the pool are those of one.
* `DiscardChoice.isChoice_kept`, `DiscardChoice.isChoice_discarded`: what is kept and what is handed
  over lies at the positions that say so.
* `DiscardChoice.exists_kept_eq`: any four cards of a pool are what some discard set keeps.
* `DiscardChoice.kept_append_discarded_perm`: every card of a pool is kept or handed over.
* `DiscardChoice.length_discarded`, `DiscardChoice.length_kept`: four cards each.
* `mem_discardChoices`, `pairwise_discardChoices`: all discard sets, in lexicographic order.
-/

namespace CaliforniaPoker

variable {pool : List Card}

namespace DiscardChoice

/-! ### Positions -/

theorem eq_of_indices_eq {d d' : DiscardChoice} (h : d.indices = d'.indices) : d = d' := by
  cases d
  cases d'
  cases h
  rfl

/-- Positions give a discard set exactly when they are those of it, in some order. -/
theorem ofIndices_eq_ok_iff {positions : List Nat} {d : DiscardChoice} :
    ofIndices positions = .ok d ↔ d.indices.Perm positions := by
  constructor
  · intro h
    rw [ofIndices] at h
    split_ifs at h
    dsimp only at h
    split at h
    · cases h
    · split_ifs at h
      obtain rfl := Except.ok.inj h
      exact List.mergeSort_perm _ _
  · intro hperm
    have hsorted : positions.mergeSort = d.indices :=
      List.Perm.eq_of_pairwise' (r := (· ≤ ·)) (List.pairwise_mergeSort' _ _)
        (d.ascending.imp Nat.le_of_lt) ((List.mergeSort_perm _ _).trans hperm.symm)
    have hbelow : d.indices.find? (fun i => poolSize ≤ i) = none :=
      List.find?_eq_none.mpr fun i hi => by simpa using d.below i hi
    rw [ofIndices, if_neg (not_not.mpr (hperm.length_eq.symm.trans d.length_eq))]
    simp only [hsorted, hbelow]
    rw [dif_pos ⟨d.length_eq, d.ascending, d.below⟩]

/-- A discard set is what its positions give. -/
theorem ofIndices_indices (d : DiscardChoice) : ofIndices d.indices = .ok d :=
  ofIndices_eq_ok_iff.mpr (List.Perm.refl _)

/-- Four different positions of the pool are those of a discard set. -/
theorem exists_indices_perm {positions : List Nat} (hlength : positions.length = discardSize)
    (hnodup : positions.Nodup) (hbelow : ∀ i ∈ positions, i < poolSize) :
    ∃ d : DiscardChoice, d.indices.Perm positions := by
  have hperm : positions.mergeSort.Perm positions := List.mergeSort_perm _ _
  have hascending := (List.pairwise_mergeSort' (· ≤ ·) positions).and (hperm.nodup_iff.mpr hnodup)
  exact ⟨⟨positions.mergeSort, hperm.length_eq.trans hlength,
    hascending.imp fun h => Nat.lt_of_le_of_ne h.1 h.2,
    fun i hi => hbelow i (hperm.mem_iff.mp hi)⟩, hperm⟩

/-- The positions of a discard set are the positions of the pool that it contains. -/
theorem filter_contains (d : DiscardChoice) :
    (List.range poolSize).filter d.contains = d.indices :=
  filter_range_eq d.ascending fun i => by
    rw [contains, List.contains_iff_mem, and_iff_right_of_imp (d.below i)]

/-! ### Splitting a pool -/

/-- What is kept lies at the positions that are kept. -/
theorem isChoice_kept (d : DiscardChoice) (hpool : pool.length = poolSize) :
    IsChoice pool d.keepIndices (d.kept pool) := by
  rw [keepIndices, ← hpool]
  exact isChoice_filter _ pool

/-- What is handed over lies at the positions of the discard set. -/
theorem isChoice_discarded (d : DiscardChoice) (hpool : pool.length = poolSize) :
    IsChoice pool d.indices (d.discarded pool) := by
  rw [← filter_contains, ← hpool]
  exact isChoice_filter _ pool

/-- The positions that are kept are those of the pool outside the discard set. -/
theorem keepIndices_eq (d : DiscardChoice) :
    d.keepIndices = (List.range poolSize).filter (· ∉ d.indices) := by
  simp only [keepIndices, contains, List.contains_eq_mem, decide_not]

/-- Any four positions are kept by some discard set. -/
theorem exists_keepIndices_eq {keep : List Nat} (hascending : keep.Pairwise (· < ·))
    (hbelow : ∀ i ∈ keep, i < poolSize) (hlength : keep.length = poolSize - discardSize) :
    ∃ d : DiscardChoice, d.keepIndices = keep := by
  have hkeep : (List.range poolSize).filter (· ∈ keep) = keep :=
    filter_range_eq hascending fun i => by
      rw [decide_eq_true_iff, and_iff_right_of_imp (hbelow i)]
  have hsplit := (List.filter_append_perm (· ∈ keep) (List.range poolSize)).length_eq
  rw [List.length_append, hkeep, hlength, List.length_range] at hsplit
  refine ⟨⟨(List.range poolSize).filter fun i => !decide (i ∈ keep), ?_,
    List.pairwise_lt_range.filter _, fun i hi => ?_⟩, ?_⟩
  · simp only [poolSize, discardSize] at hsplit ⊢
    omega
  · exact List.mem_range.mp (List.mem_of_mem_filter hi)
  · refine filter_range_eq hascending fun i => ?_
    by_cases hi : i ∈ keep
    · simp [contains, hi, hbelow i hi]
    · simp +contextual [contains, hi]

/-- Any four cards of a pool are kept by some discard set. -/
theorem exists_kept_eq {cards : List Card} (hpool : pool.length = poolSize)
    (hsub : cards.Sublist pool) (hlength : cards.length = poolSize - discardSize) :
    ∃ d : DiscardChoice, d.kept pool = cards := by
  obtain ⟨keep, hchoice⟩ := exists_isChoice hsub
  obtain ⟨d, rfl⟩ := exists_keepIndices_eq hchoice.ascending
    (fun i hi => hpool ▸ hchoice.lt_length i hi) (hchoice.length_eq.trans hlength)
  exact ⟨d, (d.isChoice_kept hpool).unique hchoice⟩

/-- Every card of a pool is kept or handed over. -/
theorem kept_append_discarded_perm (d : DiscardChoice) (pool : List Card) :
    (d.kept pool ++ d.discarded pool).Perm pool := by
  have hperm := List.filter_append_perm (fun entry => d.contains entry.2) pool.zipIdx
  have hcards := (List.perm_append_comm.trans hperm).map Prod.fst
  rwa [List.map_append, List.zipIdx_map_fst] at hcards

theorem length_discarded (d : DiscardChoice) (hpool : pool.length = poolSize) :
    (d.discarded pool).length = discardSize :=
  (d.isChoice_discarded hpool).length_eq.symm.trans d.length_eq

theorem length_kept (d : DiscardChoice) (hpool : pool.length = poolSize) :
    (d.kept pool).length = poolSize - discardSize := by
  have hsum := (d.kept_append_discarded_perm pool).length_eq
  rw [List.length_append, d.length_discarded hpool, hpool] at hsum
  exact Nat.eq_sub_of_add_eq hsum

end DiscardChoice

/-! ### All discard sets -/

private theorem map_filterMap_eq_self {α β : Type} {f : α → Option β} {g : β → α} {xs : List α}
    (h : ∀ x ∈ xs, ∃ y, f x = some y ∧ g y = x) : (xs.filterMap f).map g = xs := by
  induction xs with
  | nil => rfl
  | cons x xs ih =>
    obtain ⟨⟨y, hf, hg⟩, hrest⟩ := List.forall_mem_cons.mp h
    rw [List.filterMap_cons_some hf, List.map_cons, hg, ih hrest]

/-- No combination of four positions is refused. -/
theorem map_indices_discardChoices :
    discardChoices.map DiscardChoice.indices = choose discardSize (List.range poolSize) := by
  refine map_filterMap_eq_self fun positions hpositions => ?_
  obtain ⟨hascending, hbelow, hlength⟩ := mem_choose_range_iff.mp hpositions
  refine ⟨⟨positions, hlength, hascending, hbelow⟩, ?_, rfl⟩
  exact congrArg Except.toOption (DiscardChoice.ofIndices_indices ⟨positions, _, _, _⟩)

theorem mem_discardChoices (d : DiscardChoice) : d ∈ discardChoices := by
  have hmem : d.indices ∈ discardChoices.map DiscardChoice.indices := by
    rw [map_indices_discardChoices]
    exact mem_choose_range_iff.mpr ⟨d.ascending, d.below, d.length_eq⟩
  obtain ⟨d', hd', hindices⟩ := List.mem_map.mp hmem
  rwa [← DiscardChoice.eq_of_indices_eq hindices]

theorem pairwise_discardChoices :
    discardChoices.Pairwise fun d d' => d.indices < d'.indices := by
  rw [← List.pairwise_map (f := DiscardChoice.indices) (R := (· < ·)), map_indices_discardChoices]
  have horder : (choose discardSize (List.range poolSize)).Pairwise
      fun ys zs => ys.map id < zs.map id := pairwise_choose List.pairwise_lt_range
  simpa only [List.map_id] using horder

/-- The discard set of the first four cards is the first one. -/
theorem lowest_cons_filter_ne :
    .lowest :: discardChoices.filter (· ≠ .lowest) = discardChoices := by
  obtain ⟨first, rest, hchoices⟩ := List.exists_cons_of_ne_nil
    (List.ne_nil_of_mem (mem_discardChoices .lowest))
  have hindices := map_indices_discardChoices
  rw [hchoices, List.map_cons] at hindices
  obtain rfl : first = .lowest := DiscardChoice.eq_of_indices_eq (List.cons.inj hindices).1
  have horder := pairwise_discardChoices
  rw [hchoices, List.pairwise_cons] at horder
  rw [hchoices, List.filter_cons_of_neg (by simp), List.filter_eq_self.mpr fun d hd => ?_]
  rw [decide_eq_true_iff]
  rintro rfl
  exact lt_irrefl _ (horder.1 _ hd)

theorem lowest_indices_le (d : DiscardChoice) : DiscardChoice.lowest.indices ≤ d.indices := by
  have horder := pairwise_discardChoices
  have hmem := mem_discardChoices d
  rw [← lowest_cons_filter_ne] at horder hmem
  rcases List.mem_cons.mp hmem with rfl | hmem
  · exact le_refl _
  · exact le_of_lt ((List.pairwise_cons.mp horder).1 d hmem)

end CaliforniaPoker
