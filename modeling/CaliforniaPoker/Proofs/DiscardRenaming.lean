import CaliforniaPoker.Proofs.DiscardSearch
import CaliforniaPoker.Proofs.Renaming
import CaliforniaPoker.Proofs.StraightDraw
import Mathlib.Data.Multiset.Sort

/-!
# The discards do not depend on card order or suit names

The opponent scores the cards it would keep by their groups, suits, draws and height. None of this
changes when the cards are rearranged and their suits are renamed one to one. Nor does what the
search for discards reaches: the keep sets of a pool and of its rearranged and renamed form are the
same up to the renaming, although their positions are scrambled, so that the best of both score the
same.

## Main results

* `keepScore_of_perm_rename`: the score of cards under other names and in another order.
* `DiscardChoice.exists_kept_perm_rename`: what is kept of a renamed pool can be kept of the pool.
* `bestDiscard_of_perm_rename`: the search keeps as good cards, and the renamed ones where the best
  keep set is the only one.
-/

namespace CaliforniaPoker

variable {values values' : List Nat} {cards cards' pool pool' : List Card} {σ : Equiv.Perm Suit}
  {w : Weights}

/-! ### The parts of a score -/

private theorem mergeSort_ge_congr (h : values.Perm values') :
    values.mergeSort (fun a b => b ≤ a) = values'.mergeSort fun a b => b ≤ a :=
  congrArg (Multiset.sort · (· ≥ ·)) (Multiset.coe_eq_coe.mpr h)

/-- The groups that some values form do not depend on their order. -/
theorem groupSizes_congr (h : values.Perm values') : groupSizes values = groupSizes values' := by
  have hdifferent : values.eraseDups.Perm values'.eraseDups := by
    refine (List.perm_ext_iff_of_nodup (nodup_eraseDups _) (nodup_eraseDups _)).mpr fun v => ?_
    rw [List.mem_eraseDups, List.mem_eraseDups, h.mem_iff]
  have hcount : values.count = values'.count := funext fun v => h.count_eq v
  rw [groupSizes, groupSizes, hcount]
  exact mergeSort_ge_congr (hdifferent.map _)

theorem groupBonus_congr (h : values.Perm values') : groupBonus w values = groupBonus w values' := by
  rw [groupBonus, groupBonus, groupSizes_congr h]

theorem heightScore_congr (h : values.Perm values') :
    heightScore w values = heightScore w values' := by
  rw [heightScore, heightScore, mergeSort_ge_congr h]

/-- A renaming lists the suits in another order. -/
theorem map_suitAll_perm (σ : Equiv.Perm Suit) : (Suit.all.map σ).Perm Suit.all := by
  have hnodup : Suit.all.Nodup := by decide
  refine (List.perm_ext_iff_of_nodup (hnodup.map σ.injective) hnodup).mpr fun s => ?_
  refine iff_of_true (List.mem_map.mpr ⟨σ.symm s, Suit.mem_all _, ?_⟩) (Suit.mem_all s)
  exact σ.apply_symm_apply s

/-- The bonus for cards of one suit does not depend on which suit it is. -/
theorem suitBonus_of_perm_rename (h : cards'.Perm (cards.map (Card.rename σ))) :
    suitBonus w cards' = suitBonus w cards := by
  have hcount (s : Suit) : (cards'.countP fun c => c.suit = s) =
      cards.countP fun c => c.suit = σ.symm s := by
    rw [h.countP_eq, List.countP_map]
    refine List.countP_congr fun c _ => ?_
    rw [Function.comp_apply, decide_eq_true_iff, decide_eq_true_iff, Card.rename,
      Equiv.eq_symm_apply]
  have hperm : (Suit.all.map fun s => cards'.countP fun c => c.suit = s).Perm
      (Suit.all.map fun s => cards.countP fun c => c.suit = s) := by
    simp only [hcount]
    have hmap := (map_suitAll_perm σ.symm).map fun s => cards.countP fun c => c.suit = s
    rwa [List.map_map] at hmap
  rw [suitBonus, suitBonus, hperm.foldl_eq]

/-- Cards have the same score under other names of the suits and in any order. -/
theorem keepScore_of_perm_rename (h : cards'.Perm (cards.map (Card.rename σ))) :
    keepScore w cards' = keepScore w cards := by
  have hvalues : (cards'.map fun c => c.rank.value).Perm (cards.map fun c => c.rank.value) := by
    have hmap := h.map fun c => c.rank.value
    rwa [List.map_map] at hmap
  rw [keepScore, keepScore, groupBonus_congr hvalues, suitBonus_of_perm_rename h,
    straightPotential_congr fun v => hvalues.mem_iff, heightScore_congr hvalues]

/-! ### The search -/

/-- What is kept of a pool under other names and in another order can be kept of the pool. -/
theorem DiscardChoice.exists_kept_perm_rename (hpool : pool.length = poolSize)
    (h : pool'.Perm (pool.map (Card.rename σ))) (d' : DiscardChoice) :
    ∃ d : DiscardChoice, (d'.kept pool').Perm ((d.kept pool).map (Card.rename σ)) := by
  have hpool' : pool'.length = poolSize := by rw [h.length_eq, List.length_map, hpool]
  obtain ⟨renamed, hperm, hsub⟩ : (d'.kept pool').Subperm (pool.map (Card.rename σ)) :=
    (d'.isChoice_kept hpool').sublist.subperm.trans h.subperm
  obtain ⟨cards, hcards, rfl⟩ := List.sublist_map_iff.mp hsub
  obtain ⟨d, rfl⟩ := exists_kept_eq hpool hcards (by
    rw [← d'.length_kept hpool', ← hperm.length_eq, List.length_map])
  exact ⟨d, hperm.symm⟩

/-- The best discard sets of a pool and of its renamed and rearranged form leave equal scores. -/
theorem exists_bestDiscard_of_perm_rename (w : Weights) (hpool : pool.length = poolSize)
    (h : pool'.Perm (pool.map (Card.rename σ))) :
    ∃ d d' : DiscardChoice, (bestDiscard w pool).outcome = .ok d ∧
      (bestDiscard w pool').outcome = .ok d' ∧
      keepScore w (d'.kept pool') = keepScore w (d.kept pool) ∧
      ∀ e, keepScore w (DiscardChoice.kept e pool) ≤ keepScore w (d.kept pool) := by
  have hpool' : pool'.length = poolSize := by rw [h.length_eq, List.length_map, hpool]
  have hback := perm_map_of_leftInverse (Card.rename_symm_rename (σ := σ)) h
  obtain ⟨d, hok, hbest⟩ := exists_bestDiscard w hpool
  obtain ⟨d', hok', hbest'⟩ := exists_bestDiscard w hpool'
  refine ⟨d, d', hok, hok', le_antisymm ?_ ?_, fun e => (hbest e).1⟩
  · obtain ⟨e, he⟩ := DiscardChoice.exists_kept_perm_rename hpool h d'
    exact (keepScore_of_perm_rename he).trans_le (hbest e).1
  · obtain ⟨e, he⟩ := DiscardChoice.exists_kept_perm_rename hpool' hback d
    exact (keepScore_of_perm_rename he).trans_le (hbest' e).1

/-- **The discards do not depend on card order or suit names.** Cards that are rearranged and whose
suits are renamed one to one keep their score. For a pool of eight cards that is changed in this way
the search finds discards that leave the same score; and if all keep sets of the pool other than a
best one score lower, what it keeps are the renamed cards of this one. -/
theorem bestDiscard_of_perm_rename (w : Weights) (σ : Equiv.Perm Suit) :
    (∀ cards cards' : List Card, cards'.Perm (cards.map (Card.rename σ)) →
      keepScore w cards' = keepScore w cards) ∧
    ∀ pool pool' : List Card, pool.length = 8 → pool'.Perm (pool.map (Card.rename σ)) →
      ∃ d d' : DiscardChoice, (bestDiscard w pool).outcome = .ok d ∧
        (bestDiscard w pool').outcome = .ok d' ∧
        keepScore w (d'.kept pool') = keepScore w (d.kept pool) ∧
        ∀ best : DiscardChoice,
          (∀ e : DiscardChoice, keepScore w (e.kept pool) < keepScore w (best.kept pool) ∨
            (e.kept pool).Perm (best.kept pool)) →
          (d'.kept pool').Perm ((best.kept pool).map (Card.rename σ)) := by
  refine ⟨fun cards cards' => keepScore_of_perm_rename, fun pool pool' hpool h => ?_⟩
  obtain ⟨d, d', hok, hok', hscore, hbest⟩ := exists_bestDiscard_of_perm_rename w hpool h
  refine ⟨d, d', hok, hok', hscore, fun best honly => ?_⟩
  obtain ⟨e, he⟩ := DiscardChoice.exists_kept_perm_rename hpool h d'
  have hle : keepScore w (best.kept pool) ≤ keepScore w (e.kept pool) := by
    rw [← keepScore_of_perm_rename he, hscore]
    exact hbest best
  exact he.trans (((honly e).resolve_left hle.not_gt).map _)

/-- The four high hearts are kept of a pool in which they make the only best keep set, and the four
high clubs when hearts and clubs change places and the pool is turned around. -/
theorem bestDiscard_of_perm_rename_hearts :
    let pool : List Card := [⟨.hearts, .ace⟩, ⟨.clubs, .two⟩, ⟨.hearts, .king⟩, ⟨.diamonds, .four⟩,
      ⟨.hearts, .jack⟩, ⟨.spades, .six⟩, ⟨.hearts, .queen⟩, ⟨.clubs, .nine⟩]
    let pool' : List Card := [⟨.hearts, .nine⟩, ⟨.clubs, .queen⟩, ⟨.spades, .six⟩, ⟨.clubs, .jack⟩,
      ⟨.diamonds, .four⟩, ⟨.clubs, .king⟩, ⟨.hearts, .two⟩, ⟨.clubs, .ace⟩]
    pool.length = 8 ∧ pool'.Perm (pool.map (Card.rename (Equiv.swap .hearts .clubs))) ∧
      ∃ d', (bestDiscard defaultWeights pool').outcome = .ok d' ∧
        (d'.kept pool').Perm [⟨.clubs, .ace⟩, ⟨.clubs, .king⟩, ⟨.clubs, .jack⟩, ⟨.clubs, .queen⟩] := by
  intro pool pool'
  have hperm : pool'.Perm (pool.map (Card.rename (Equiv.swap .hearts .clubs))) := by decide
  obtain ⟨-, d', -, hok', -, hkept⟩ :=
    (bestDiscard_of_perm_rename defaultWeights (Equiv.swap .hearts .clubs)).2 pool pool' rfl hperm
  let best : DiscardChoice := ⟨[1, 3, 5, 7], rfl, by decide, by decide⟩
  refine ⟨rfl, hperm, d', hok', hkept best fun e => ?_⟩
  -- sorting by insertion lets the scores of all seventy keep sets be computed
  have hall : ∀ positions ∈ choose 4 (List.range 8),
      keepScore defaultWeights ((pool.zipIdx.filter fun x => !positions.contains x.2).map Prod.fst) <
          keepScore defaultWeights
            ((pool.zipIdx.filter fun x => !best.indices.contains x.2).map Prod.fst) ∨
        positions = best.indices := by
    simp only [keepScore, groupBonus, groupSizes, straightPotential, longestRun,
      distinctDescending, heightScore, mergeSort_ge_eq_insertionSort]
    decide +kernel
  have hmem := mem_choose_range_iff.mpr ⟨e.ascending, e.below, e.length_eq⟩
  rcases hall e.indices hmem with hlt | heq
  · exact .inl hlt
  · have hbest : e = best := DiscardChoice.eq_of_indices_eq heq
    exact .inr (hbest ▸ List.Perm.refl _)

end CaliforniaPoker
