import CaliforniaPoker.DiscardSearch
import CaliforniaPoker.Proofs.Discard
import CaliforniaPoker.Proofs.Recorded
import Mathlib.Data.List.Induction

/-!
# The search for discards finds the first best keep set

The search scores the cards that each discard set leaves. The discard set of the first four cards
is scored ahead of the others and left out of their enumeration; since it is the first one anyway,
all seventy are scored in lexicographic order. This file shows that of the discard sets whose keep
set has the greatest score the search chooses the first.

## Main definitions

* `scored`: a discard set with the score of the cards that it leaves.

## Main results

* `exists_split_of_firstBest`: of scored entries the first with the greatest score is kept.
* `outcome_bestDiscard_of_length_eq`, `outcome_bestDiscard_of_length_ne`: what the search comes to.
* `exists_bestDiscard`: the chosen discard set is the first with the greatest score.
* `bestDiscard_first_greatest`: the same for the keep sets as choices of cards of the pool.
-/

namespace CaliforniaPoker

variable {w : Weights} {pool : List Card}

/-! ### The first best entry -/

theorem firstBest_concat {α : Type} (first last : α × Int) (rest : List (α × Int)) :
    firstBest first (rest ++ [last]) =
      if (firstBest first rest).2 < last.2 then last else firstBest first rest :=
  List.foldl_concat _ _ _ _

/-- Of scored entries the first with the greatest score is kept. -/
theorem exists_split_of_firstBest {α : Type} (first : α × Int) (rest : List (α × Int)) :
    ∃ before after, first :: rest = before ++ firstBest first rest :: after ∧
      (∀ entry ∈ before, entry.2 < (firstBest first rest).2) ∧
      ∀ entry ∈ first :: rest, entry.2 ≤ (firstBest first rest).2 := by
  induction rest using List.reverseRecOn with
  | nil => exact ⟨[], [], rfl, by simp, by simp [firstBest]⟩
  | append_singleton rest last ih =>
    obtain ⟨before, after, hsplit, hbefore, hall⟩ := ih
    rw [firstBest_concat, ← List.cons_append]
    split_ifs with hlt
    · refine ⟨first :: rest, [], rfl, fun entry hmem => (hall entry hmem).trans_lt hlt, ?_⟩
      intro entry hmem
      rcases List.mem_append.mp hmem with hmem | hmem
      · exact ((hall entry hmem).trans_lt hlt).le
      · rw [List.mem_singleton.mp hmem]
    · refine ⟨before, after ++ [last], by rw [hsplit]; simp, hbefore, fun entry hmem => ?_⟩
      rcases List.mem_append.mp hmem with hmem | hmem
      · exact hall entry hmem
      · rw [List.mem_singleton.mp hmem]
        exact not_lt.mp hlt

/-! ### The search -/

/-- A discard set with the score of the cards that it leaves. -/
def scored (w : Weights) (pool : List Card) (d : DiscardChoice) : DiscardChoice × Int :=
  (d, keepScore w (d.kept pool))

theorem outcome_scoreDiscard (w : Weights) (pool : List Card) (d : DiscardChoice) :
    (scoreDiscard w pool d).outcome = .ok (scored w pool d) := rfl

theorem outcome_bestDiscard_of_length_ne (hpool : pool.length ≠ poolSize) :
    (bestDiscard w pool).outcome = .error (.invalidPoolSize poolSize pool.length) := by
  rw [bestDiscard, if_pos hpool, Recorded.outcome_fail]

theorem outcome_bestDiscard_of_length_eq (hpool : pool.length = poolSize) :
    (bestDiscard w pool).outcome = .ok (firstBest (scored w pool .lowest)
      ((discardChoices.filter (· ≠ .lowest)).map (scored w pool))).1 := by
  rw [bestDiscard, if_neg (not_not.mpr hpool),
    Recorded.outcome_bind_of_ok (outcome_scoreDiscard w pool _),
    Recorded.outcome_bind_of_ok (Recorded.outcome_mapM (outcome_scoreDiscard w pool) _),
    Recorded.outcome_bind_of_ok (Recorded.outcome_record _), Recorded.outcome_pure]

/-- A pool of eight cards has a best discard set: no other leaves cards with a greater score, and
those that leave cards with the same score do not come before it. -/
theorem exists_bestDiscard (w : Weights) (hpool : pool.length = poolSize) :
    ∃ d, (bestDiscard w pool).outcome = .ok d ∧ ∀ d' : DiscardChoice,
      keepScore w (d'.kept pool) ≤ keepScore w (d.kept pool) ∧
        (keepScore w (d'.kept pool) = keepScore w (d.kept pool) → d.indices ≤ d'.indices) := by
  obtain ⟨before, after, hsplit, hbefore, hall⟩ := exists_split_of_firstBest
    (scored w pool .lowest) ((discardChoices.filter (· ≠ .lowest)).map (scored w pool))
  rw [← List.map_cons, lowest_cons_filter_ne] at hsplit hall
  -- the entry that is kept is that of one of all discard sets
  obtain ⟨earlier, rest, hchoices, rfl, hrest⟩ := List.map_eq_append_iff.mp hsplit
  obtain ⟨d, later, rfl, hd, -⟩ := List.map_eq_cons_iff.mp hrest
  rw [← hd] at hbefore hall
  refine ⟨d, by rw [outcome_bestDiscard_of_length_eq hpool, ← hd, scored], fun d' => ?_⟩
  have hmem := mem_discardChoices d'
  refine ⟨hall _ (List.mem_map_of_mem hmem), fun heq => ?_⟩
  have horder := pairwise_discardChoices
  rw [hchoices, List.pairwise_append, List.pairwise_cons] at horder
  rw [hchoices] at hmem
  rcases List.mem_append.mp hmem with hmem | hmem
  · exact absurd heq (hbefore _ (List.mem_map_of_mem hmem)).ne
  · rcases List.mem_cons.mp hmem with rfl | hmem
    · exact le_refl _
    · exact le_of_lt (horder.2.1.1 d' hmem)

/-- **The search for discards returns the first maximum.** It refuses a pool exactly when this does
not have eight cards. Otherwise it chooses a discard set for which the four cards of the pool that
are kept have a score that no other four kept cards exceed; the discard sets for which they reach
the same score do not come before it in lexicographic order. -/
theorem bestDiscard_first_greatest (w : Weights) (pool : List Card) :
    (∀ e, (bestDiscard w pool).outcome = .error e ↔
      pool.length ≠ 8 ∧ e = .invalidPoolSize 8 pool.length) ∧
    (pool.length = 8 → ∃ d keep, (bestDiscard w pool).outcome = .ok d ∧
      IsChoice pool d.keepIndices keep ∧ keep.length = 4 ∧
      ∀ d' : DiscardChoice, ∃ keep', IsChoice pool d'.keepIndices keep' ∧ keep'.length = 4 ∧
        keepScore w keep' ≤ keepScore w keep ∧
        (keepScore w keep' = keepScore w keep → d.indices ≤ d'.indices)) := by
  constructor
  · intro e
    by_cases hpool : pool.length = 8
    · obtain ⟨d, hok, -⟩ := exists_bestDiscard w hpool
      simp [hok, hpool]
    · rw [outcome_bestDiscard_of_length_ne hpool]
      simp [hpool, poolSize, eq_comm]
  · intro hpool
    obtain ⟨d, hok, hbest⟩ := exists_bestDiscard w hpool
    exact ⟨d, d.kept pool, hok, d.isChoice_kept hpool, d.length_kept hpool, fun d' =>
      ⟨d'.kept pool, d'.isChoice_kept hpool, d'.length_kept hpool, hbest d'⟩⟩

/-- Among eight nines of spades all keep sets are alike, so that the first four cards go. -/
theorem bestDiscard_first_greatest_alike :
    (List.replicate 8 (⟨.spades, .nine⟩ : Card)).length = 8 ∧
      (bestDiscard defaultWeights (List.replicate 8 ⟨.spades, .nine⟩)).outcome = .ok .lowest := by
  obtain ⟨d, keep, hok, hkeep, hlength, hall⟩ := (bestDiscard_first_greatest defaultWeights
    (List.replicate 8 (⟨.spades, .nine⟩ : Card))).2 rfl
  obtain ⟨keep', hkeep', hlength', -, hfirst⟩ := hall .lowest
  obtain ⟨n, -, rfl⟩ := List.sublist_replicate_iff.mp hkeep.sublist
  obtain ⟨n', -, rfl⟩ := List.sublist_replicate_iff.mp hkeep'.sublist
  rw [List.length_replicate] at hlength hlength'
  subst hlength hlength'
  have hindices : d.indices = DiscardChoice.lowest.indices :=
    le_antisymm (hfirst rfl) (lowest_indices_le d)
  exact ⟨rfl, DiscardChoice.eq_of_indices_eq hindices ▸ hok⟩

end CaliforniaPoker
