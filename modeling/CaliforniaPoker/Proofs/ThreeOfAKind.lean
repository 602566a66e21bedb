import CaliforniaPoker.Proofs.DiscardSearch
import CaliforniaPoker.Proofs.KeepScore

/-!
# Three of a kind is kept

Of eight different cards with three or four of a rank, some four have exactly three of this rank.
Under the default weights these score more than any four cards without three of a kind, so that
the search for discards keeps three of a kind, also where there is a fourth card of the rank.

## Main results

* `exists_perm_of_count_eq_three`: four ranks of which exactly three are alike.
* `exists_kept_three`: some discard set keeps exactly three cards of a rank.
* `bestDiscard_keeps_three`: the search keeps three cards of one rank and one of another.
-/

namespace CaliforniaPoker

variable {pool : List Card} {r : Rank}

theorem exists_perm_of_count_eq_three {ranks : List Rank} (hlength : ranks.length = 4)
    (hthree : ranks.count r = 3) : ∃ s, r ≠ s ∧ ranks.Perm [r, r, r, s] := by
  have hsplit := List.filter_append_perm (· == r) ranks
  rw [List.filter_beq, hthree] at hsplit
  have hone : (ranks.filter fun r' => !r' == r).length = 1 := by
    have hsum := hsplit.length_eq
    rw [List.length_append, List.length_replicate] at hsum
    omega
  obtain ⟨s, hs⟩ := List.length_eq_one_iff.mp hone
  have hmem : s ∈ ranks.filter fun r' => !r' == r := hs ▸ List.mem_singleton_self s
  refine ⟨s, ?_, (hs ▸ hsplit).symm⟩
  rintro rfl
  simp at hmem

/-- Of eight different cards with at least three of a rank, some four have exactly three of it. -/
theorem exists_sublist_three (hsize : pool.length = 8) (hnodup : pool.Nodup)
    (hthree : 3 ≤ (pool.map Card.rank).count r) : ∃ cards : List Card,
      cards.Sublist pool ∧ cards.length = 4 ∧ (cards.map Card.rank).count r = 3 := by
  have hfour := count_map_rank_le_four hnodup r
  have halike := count_map_rank_eq_length_filter pool r
  have hperm := List.filter_append_perm (fun c => c.rank = r) pool
  set alike := pool.filter fun c => c.rank = r
  set others := pool.filter fun c => !decide (c.rank = r)
  have hothers : alike.length + others.length = 8 := by
    rw [← List.length_append, hperm.length_eq, hsize]
  -- three cards of the rank and one that is not
  obtain ⟨cards, hcards, hsub⟩ : (alike.take 3 ++ others.take 1).Subperm pool :=
    ((List.take_sublist 3 alike).append (List.take_sublist 1 others)).subperm.trans hperm.subperm
  have hranks : ((alike.take 3).map Card.rank).count r = (alike.take 3).length := by
    rw [count_map_rank_eq_length_filter, List.filter_eq_self.mpr]
    exact fun c hc => (List.mem_filter.mp (List.mem_of_mem_take hc)).2
  have hrest : ((others.take 1).map Card.rank).count r = 0 := by
    rw [count_map_rank_eq_length_filter, List.filter_eq_nil_iff.mpr, List.length_nil]
    intro c hc
    simpa using (List.mem_filter.mp (List.mem_of_mem_take hc)).2
  refine ⟨cards, hsub, ?_, ?_⟩
  · rw [hcards.length_eq, List.length_append, List.length_take, List.length_take]
    omega
  · rw [(hcards.map Card.rank).count_eq, List.map_append, List.count_append, hranks, hrest,
      List.length_take]
    omega

/-- Some discard set keeps exactly three cards of a rank that at least three of the cards have. -/
theorem exists_kept_three (hsize : pool.length = 8) (hnodup : pool.Nodup)
    (hthree : 3 ≤ (pool.map Card.rank).count r) :
    ∃ d : DiscardChoice, ((d.kept pool).map Card.rank).count r = 3 := by
  obtain ⟨cards, hsub, hlength, hcount⟩ := exists_sublist_three hsize hnodup hthree
  obtain ⟨d, rfl⟩ := DiscardChoice.exists_kept_eq hsize hsub hlength
  exact ⟨d, hcount⟩

/-- **Three of a kind is kept.** Of eight different cards of which at least three have one rank the
search under the default weights keeps exactly three of a rank and one of another. If no other rank
occurs three or more times, the three cards are of this one. -/
theorem bestDiscard_keeps_three (hsize : pool.length = 8) (hnodup : pool.Nodup)
    (hthree : 3 ≤ (pool.map Card.rank).count r) : ∃ d kept other,
      (bestDiscard defaultWeights pool).outcome = .ok d ∧ kept ≠ other ∧
        ((d.kept pool).map Card.rank).Perm [kept, kept, kept, other] ∧
        ((∀ r', 3 ≤ (pool.map Card.rank).count r' → r' = r) → kept = r) := by
  obtain ⟨d, hok, hbest⟩ := exists_bestDiscard defaultWeights hsize
  obtain ⟨d', hd'⟩ := exists_kept_three hsize hnodup hthree
  have hsub (d : DiscardChoice) : (d.kept pool).Sublist pool := (d.isChoice_kept hsize).sublist
  have hcases (d : DiscardChoice) := keepScore_cases (d.length_kept hsize) (hnodup.sublist (hsub d))
  -- what `d` keeps has no less than the score of three of a kind
  obtain ⟨kept, hkept⟩ : ∃ kept, ((d.kept pool).map Card.rank).count kept = 3 := by
    have hle := (hbest d').1
    rcases hcases d with ⟨hany, -⟩ | ⟨-, hlow⟩
    · exact hany
    · rcases hcases d' with ⟨-, hhigh⟩ | ⟨hnone, -⟩
      · omega
      · exact absurd ⟨r, hd'⟩ hnone
  obtain ⟨other, hne, hperm⟩ := exists_perm_of_count_eq_three
    (by rw [List.length_map, d.length_kept hsize]; rfl) hkept
  refine ⟨d, kept, other, hok, hne, hperm, fun honly => honly kept ?_⟩
  rw [← hkept]
  exact ((hsub d).map Card.rank).count_le kept

/-- Four aces are broken up: three are kept, and a card of another rank. -/
theorem bestDiscard_keeps_three_aces :
    ∃ d other, (bestDiscard defaultWeights [⟨.spades, .ace⟩, ⟨.hearts, .ace⟩, ⟨.diamonds, .ace⟩,
        ⟨.clubs, .ace⟩, ⟨.clubs, .king⟩, ⟨.hearts, .nine⟩, ⟨.spades, .five⟩, ⟨.diamonds, .two⟩]
          ).outcome = .ok d ∧ other ≠ .ace ∧
      ((d.kept [⟨.spades, .ace⟩, ⟨.hearts, .ace⟩, ⟨.diamonds, .ace⟩, ⟨.clubs, .ace⟩,
        ⟨.clubs, .king⟩, ⟨.hearts, .nine⟩, ⟨.spades, .five⟩, ⟨.diamonds, .two⟩]).map
          Card.rank).Perm [.ace, .ace, .ace, other] := by
  obtain ⟨d, kept, other, hok, hne, hperm, honly⟩ := @bestDiscard_keeps_three
    [⟨.spades, .ace⟩, ⟨.hearts, .ace⟩, ⟨.diamonds, .ace⟩, ⟨.clubs, .ace⟩, ⟨.clubs, .king⟩,
      ⟨.hearts, .nine⟩, ⟨.spades, .five⟩, ⟨.diamonds, .two⟩] .ace (by decide) (by decide) (by decide)
  obtain rfl : kept = .ace := honly fun r' => by cases r' <;> decide
  exact ⟨d, other, hok, hne.symm, hperm⟩

end CaliforniaPoker
