import CaliforniaPoker.Proofs.DiscardSearch
import Mathlib.Data.List.FinRange

/-!
# Only the ratios of the weights matter

Every part of a score adds up weights, each of them multiplied by a number that only the cards
determine. Scores are therefore linear in the weights: under added weights they add up, and under
weights that are all multiplied by a number they are multiplied by it. A positive factor does not
change which scores are greater than others, so that the search for discards does not notice it.

Weights are bounded integers. The sum and the multiples of weights are understood exactly and taken
as given, so that the results hold as long as these are weights again.

## Main definitions

* `Weights.number`: the twelve numbers that weights consist of.
* `Weights.IsSum`, `Weights.IsMultiple`: weights that are added or multiplied number by number.
* `IsLinear`: what depends on weights in keeping with sums and multiples.

## Main results

* `isLinear_keepScore`: the score of cards is linear in the weights.
* `bestDiscard_congr`: the search depends only on which scores are greater than others.
* `keepScore_linear`: sums and multiples of weights give those of the scores, and positive multiples
  the same discards.
-/

namespace CaliforniaPoker

/-! ### Linear dependence on weights -/

/-- The twelve numbers that weights consist of: the eight bonuses and the four position weights. -/
def Weights.number (w : Weights) : Bonus ⊕ Fin 4 → Int
  | .inl b => (w.bonus b).toInt
  | .inr i => (w.positions.toList.get i).toInt

/-- Each number of the weights `u` is exactly the sum of those of `w` and `v`. -/
def Weights.IsSum (u w v : Weights) : Prop := ∀ i, u.number i = w.number i + v.number i

/-- Each number of the weights `u` is exactly `c` times that of `w`. -/
def Weights.IsMultiple (u : Weights) (c : Int) (w : Weights) : Prop :=
  ∀ i, u.number i = c * w.number i

/-- What depends on weights in such a way that sums of weights give sums, and multiples of them
multiples. -/
structure IsLinear (f : Weights → Int) : Prop where
  sum : ∀ {u w v : Weights}, u.IsSum w v → f u = f w + f v
  multiple : ∀ {u w : Weights} {c : Int}, u.IsMultiple c w → f u = c * f w

namespace IsLinear

variable {f g : Weights → Int}

theorem number (i : Bonus ⊕ Fin 4) : IsLinear fun w => w.number i where
  sum h := h i
  multiple h := h i

theorem bonus (b : Bonus) : IsLinear fun w => (w.bonus b).toInt := number (.inl b)

theorem zero : IsLinear fun _ => 0 where
  sum _ := (Int.add_zero 0).symm
  multiple _ := (Int.mul_zero _).symm

theorem add (hf : IsLinear f) (hg : IsLinear g) : IsLinear fun w => f w + g w where
  sum {u w v} h := by
    rw [hf.sum h, hg.sum h]
    omega
  multiple {u w c} h := by
    rw [hf.multiple h, hg.multiple h, Int.mul_add]

theorem mul (n : Int) (hf : IsLinear f) : IsLinear fun w => n * f w where
  sum {u w v} h := by
    rw [hf.sum h, Int.mul_add]
  multiple {u w c} h := by
    rw [hf.multiple h, Int.mul_left_comm]

end IsLinear

/-! ### The parts of a score -/

theorem isLinear_groupBonus (values : List Nat) : IsLinear fun w => groupBonus w values := by
  simp only [groupBonus]
  split
  · exact .bonus .trips
  · exact (IsLinear.bonus .pair).add (.bonus .twoPair)
  · exact .bonus .pair
  · exact .zero

theorem isLinear_suitBonus (cards : List Card) : IsLinear fun w => suitBonus w cards := by
  simp only [suitBonus]
  split
  · exact .bonus .fourSuited
  · exact .bonus .threeSuited
  · exact .zero

theorem isLinear_straightBonus (length : Nat) : IsLinear fun w => straightBonus w length := by
  simp only [straightBonus.eq_def]
  split
  · exact .bonus .runOfFour
  · exact .bonus .runOfThree
  · exact .bonus .runOfTwo
  · exact .zero

/-- The position weights are the last four of the numbers. -/
theorem map_toInt_positions (w : Weights) :
    w.positions.toList.map Int32.toInt = (List.finRange 4).map fun i => w.number (.inr i) := rfl

theorem isLinear_heightScore (values : List Nat) : IsLinear fun w => heightScore w values := by
  have hterms (sorted : List Nat) (places : List (Fin 4)) : IsLinear fun w =>
      (List.zipWith (fun (v : Nat) (z : Int) => v * z) sorted
        (places.map fun i => w.number (.inr i))).foldr (· + ·) 0 := by
    induction sorted generalizing places with
    | nil => exact .zero
    | cons v sorted ih =>
      cases places with
      | nil => exact .zero
      | cons i places => exact ((IsLinear.number (.inr i)).mul v).add (ih places)
  have hheight (w : Weights) : heightScore w values =
      (List.zipWith (fun (v : Nat) (z : Int) => v * z) (values.mergeSort fun a b => b ≤ a)
        ((List.finRange 4).map fun i => w.number (.inr i))).foldr (· + ·) 0 := by
    rw [← map_toInt_positions, List.zipWith_map_right, heightScore]
  simp only [hheight]
  exact hterms _ _

/-- The score of cards is linear in the weights. -/
theorem isLinear_keepScore (cards : List Card) : IsLinear fun w => keepScore w cards :=
  (((isLinear_groupBonus _).add (isLinear_suitBonus cards)).add
    (isLinear_straightBonus _)).add (isLinear_heightScore _)

/-! ### The search -/

variable {u w : Weights}

/-- The search for discards depends only on which scores are greater than others. -/
theorem bestDiscard_congr (h : ∀ keep keep' : List Card,
      keepScore u keep ≤ keepScore u keep' ↔ keepScore w keep ≤ keepScore w keep')
    (pool : List Card) : (bestDiscard u pool).outcome = (bestDiscard w pool).outcome := by
  by_cases hpool : pool.length = poolSize
  · obtain ⟨d, hok, hbest⟩ := exists_bestDiscard u hpool
    obtain ⟨d', hok', hbest'⟩ := exists_bestDiscard w hpool
    -- each of the two is a best discard set under the weights of the other
    have hle : keepScore w (d'.kept pool) ≤ keepScore w (d.kept pool) := (h _ _).mp (hbest d').1
    have hle' : keepScore u (d.kept pool) ≤ keepScore u (d'.kept pool) := (h _ _).mpr (hbest' d).1
    have hfirst := (hbest d').2 (le_antisymm (hbest d').1 hle')
    have hfirst' := (hbest' d).2 (le_antisymm (hbest' d).1 hle)
    rw [hok, hok', DiscardChoice.eq_of_indices_eq (le_antisymm hfirst hfirst')]
  · rw [outcome_bestDiscard_of_length_ne hpool, outcome_bestDiscard_of_length_ne hpool]

/-- Positive multiples of weights lead to the same discards. -/
theorem bestDiscard_of_isMultiple {c : Int} (hc : 0 < c) (h : u.IsMultiple c w)
    (pool : List Card) : (bestDiscard u pool).outcome = (bestDiscard w pool).outcome := by
  refine bestDiscard_congr (fun keep keep' => ?_) pool
  rw [(isLinear_keepScore keep).multiple h, (isLinear_keepScore keep').multiple h]
  exact Int.mul_le_mul_left hc

/-- **Only the ratios of the weights matter.** Under weights that are the sums of two others, number
by number, the score of cards is the sum of their scores under these. Under weights that are the
multiples of others by an integer, it is the multiple of their score; and if the integer is positive,
the search finds the same discards in every pool of eight cards. -/
theorem keepScore_linear :
    (∀ u w v : Weights, u.IsSum w v →
      ∀ cards, keepScore u cards = keepScore w cards + keepScore v cards) ∧
    ∀ (c : Int) (u w : Weights), u.IsMultiple c w →
      (∀ cards, keepScore u cards = c * keepScore w cards) ∧
      (0 < c → ∀ pool : List Card, pool.length = 8 →
        ∃ d, (bestDiscard w pool).outcome = .ok d ∧ (bestDiscard u pool).outcome = .ok d) := by
  refine ⟨fun u w v h cards => (isLinear_keepScore cards).sum h, fun c u w h =>
    ⟨fun cards => (isLinear_keepScore cards).multiple h, fun hc pool hpool => ?_⟩⟩
  obtain ⟨d, hok, -⟩ := exists_bestDiscard w hpool
  exact ⟨d, hok, (bestDiscard_of_isMultiple hc h pool).trans hok⟩

/-- The default weights with every bonus lowered by thirty and other position weights, and three
times the default weights. -/
theorem keepScore_linear_default :
    let change : Weights := { bonus := fun _ => -30, positions := ⟨1, -1, 0, 3⟩ }
    let changed : Weights :=
      { bonus := fun b => defaultWeights.bonus b - 30, positions := ⟨6, 3, 3, 5⟩ }
    let tripled : Weights :=
      { bonus := fun b => 3 * defaultWeights.bonus b, positions := ⟨15, 12, 9, 6⟩ }
    let pool : List Card := [⟨.clubs, .seven⟩, ⟨.diamonds, .two⟩, ⟨.hearts, .seven⟩, ⟨.spades, .nine⟩,
      ⟨.spades, .seven⟩, ⟨.clubs, .three⟩, ⟨.hearts, .four⟩, ⟨.diamonds, .jack⟩]
    changed.IsSum defaultWeights change ∧
      keepScore changed (pool.take 4) =
        keepScore defaultWeights (pool.take 4) + keepScore change (pool.take 4) ∧
      tripled.IsMultiple 3 defaultWeights ∧ (0 : Int) < 3 ∧ pool.length = 8 ∧
      ∃ d, (bestDiscard defaultWeights pool).outcome = .ok d ∧
        (bestDiscard tripled pool).outcome = .ok d := by
  intro change changed tripled pool
  have hsum : changed.IsSum defaultWeights change := by
    rintro (b | i)
    · cases b <;> rfl
    · match i with
      | 0 | 1 | 2 | 3 => rfl
  have hmultiple : tripled.IsMultiple 3 defaultWeights := by
    rintro (b | i)
    · cases b <;> rfl
    · match i with
      | 0 | 1 | 2 | 3 => rfl
  have hpool : pool.length = 8 := rfl
  exact ⟨hsum, keepScore_linear.1 _ _ _ hsum _, hmultiple, by decide, hpool,
    (keepScore_linear.2 3 _ _ hmultiple).2 (by decide) pool hpool⟩

end CaliforniaPoker
