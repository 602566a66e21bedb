import CaliforniaPoker.Proofs.Combinations
import CaliforniaPoker.Proofs.Hand.Wilds
import CaliforniaPoker.Proofs.Recorded
import CaliforniaPoker.Selection
import Mathlib.Data.List.Induction

/-!
# The selected hand is the best, and the first of the best

The selection values every choice of positions and keeps the best hand so far unless a later one
beats it. This file shows that the hand it ends with is the first of the hands with the greatest
value.

## Main definitions

* `IsValued`: a hand made of the entries of a candidate, with their value.

## Main results

* `exists_split_of_foldl_improve`: keeping the better hand ends with the first of the greatest.
* `selectBest_eq_ok_iff`: a selection succeeds when every candidate has a value.
* `selectBest_optimal`: no choice of five positions is worth more than the selected one, and those
  worth as much come after it.
-/

namespace CaliforniaPoker

variable {pool : List HandCard} {k : Nat} {best best' : Option BestHand}
  {candidate : List (HandCard × Nat)} {candidates : List (List (HandCard × Nat))}
  {hands : List BestHand} {b : BestHand}

/-! ### The better hand -/

theorem improve_some (current new : BestHand) :
    improve (some current) new = if new.rank ≤ current.rank then some current else some new := by
  rw [improve]
  by_cases h : new.rank ≤ current.rank
  · rw [if_pos h, if_neg fun hbeats => HandRank.beats_iff.mp hbeats h]
  · rw [if_neg h, if_pos (HandRank.beats_iff.mpr h)]

theorem exists_improve (best : Option BestHand) (new : BestHand) :
    ∃ hand, improve best new = some hand := by
  cases best with
  | none => exact ⟨new, rfl⟩
  | some current =>
    rw [improve_some]
    split_ifs <;> exact ⟨_, rfl⟩

theorem foldl_improve_eq_none_iff : hands.foldl improve none = none ↔ hands = [] := by
  cases hands using List.reverseRecOn with
  | nil => simp
  | append_singleton hands last =>
    obtain ⟨hand, hhand⟩ := exists_improve (hands.foldl improve none) last
    rw [List.foldl_concat, hhand]
    simp

/-- Keeping the better of two hands, the earlier one on a tie, ends with the first of the
greatest. -/
theorem exists_split_of_foldl_improve (h : hands.foldl improve none = some b) :
    ∃ before after, hands = before ++ b :: after ∧ (∀ hand ∈ before, ¬ b.rank ≤ hand.rank) ∧
      ∀ hand ∈ hands, hand.rank ≤ b.rank := by
  induction hands using List.reverseRecOn generalizing b with
  | nil => exact absurd h.symm (Option.some_ne_none b)
  | append_singleton hands last ih =>
    rw [List.foldl_concat] at h
    cases hbest : hands.foldl improve none with
    | none =>
      obtain rfl := foldl_improve_eq_none_iff.mp hbest
      obtain rfl := Option.some.inj h
      exact ⟨[], [], rfl, by simp, by simp⟩
    | some current =>
      obtain ⟨before, after, rfl, hbefore, hall⟩ := ih hbest
      rw [hbest, improve_some] at h
      split_ifs at h with hle
      · obtain rfl := Option.some.inj h
        refine ⟨before, after ++ [last], by simp, hbefore, fun hand hmem => ?_⟩
        rcases List.mem_append.mp hmem with hmem | hmem
        · exact hall hand hmem
        · rwa [List.mem_singleton.mp hmem]
      · -- the new hand beats all before it, since it beats their greatest
        obtain rfl := Option.some.inj h
        refine ⟨before ++ current :: after, [], rfl, fun hand hmem hge => ?_, fun hand hmem => ?_⟩
        · exact hle (hge.trans (hall hand hmem))
        · rcases List.mem_append.mp hmem with hmem | hmem
          · exact (hall hand hmem).trans ((HandRank.le_total _ _).resolve_left hle)
          · rw [List.mem_singleton.mp hmem]

/-! ### The candidates and their values -/

/-- A hand made of the entries of a candidate, with the value of these entries. -/
structure IsValued (candidate : List (HandCard × Nat)) (hand : BestHand) : Prop where
  indices_eq : hand.indices = candidate.map Prod.snd
  cards_eq : hand.cards = candidate.map Prod.fst
  evaluate_eq : evaluate hand.cards = .ok hand.rank

/-- One candidate is passed exactly when it has a value; then the better hand is kept. -/
theorem outcome_consider_eq_ok_iff : (consider best candidate).outcome = .ok best' ↔
    ∃ hand, IsValued candidate hand ∧ improve best hand = best' := by
  rw [consider, Recorded.outcome_bind_eq_ok_iff]
  constructor
  · rintro ⟨rank, hrank, hbest⟩
    rw [Recorded.outcome_bind_of_ok (Recorded.outcome_record _)] at hbest
    cases hvalue : evaluate (candidate.map Prod.fst) with
    | error defect => simp [hvalue, Except.mapError] at hrank
    | ok value =>
      rw [hvalue] at hrank
      obtain rfl := Except.ok.inj hrank
      exact ⟨_, ⟨rfl, rfl, hvalue⟩, Except.ok.inj hbest⟩
  · rintro ⟨⟨indices, cards, rank⟩, ⟨rfl, rfl, hvalue⟩, hbest⟩
    refine ⟨rank, by rw [Recorded.outcome_ofExcept, hvalue, Except.mapError], ?_⟩
    rw [Recorded.outcome_bind_of_ok (Recorded.outcome_record _), Recorded.outcome_pure, hbest]

/-- All candidates are passed exactly when all have values. -/
theorem outcome_foldlM_consider_eq_ok_iff :
    (candidates.foldlM consider best).outcome = .ok best' ↔
      ∃ hands, List.Forall₂ IsValued candidates hands ∧ hands.foldl improve best = best' := by
  induction candidates generalizing best with
  | nil =>
    rw [List.foldlM_nil, Recorded.outcome_pure, Except.ok.injEq]
    simp only [List.forall₂_nil_left_iff, exists_eq_left, List.foldl_nil]
  | cons candidate candidates ih =>
    rw [List.foldlM_cons, Recorded.outcome_bind_eq_ok_iff]
    simp only [outcome_consider_eq_ok_iff, ih, List.forall₂_cons_left_iff]
    constructor
    · rintro ⟨_, ⟨hand, hvalued, rfl⟩, hands, hall, hbest⟩
      exact ⟨hand :: hands, ⟨hand, hands, hvalued, hall, rfl⟩, hbest⟩
    · rintro ⟨_, ⟨hand, hands, hvalued, hall, rfl⟩, hbest⟩
      exact ⟨_, ⟨hand, hvalued, rfl⟩, hands, hall, hbest⟩

/-- A selection succeeds when the pool is large enough and every candidate has a value; it ends
with the hand that is kept. -/
theorem selectBest_eq_ok_iff : (selectBest pool k).outcome = .ok b ↔ k ≤ pool.length ∧
    ∃ hands, List.Forall₂ IsValued (choose k pool.zipIdx) hands ∧
      hands.foldl improve none = some b := by
  rw [selectBest]
  split_ifs with hk
  · simp [Nat.not_le.mpr hk]
  · rw [foldChooseM_eq_foldlM, Recorded.outcome_bind_eq_ok_iff]
    simp only [List.reverse_nil, List.nil_append, outcome_foldlM_consider_eq_ok_iff,
      Nat.le_of_not_lt hk, true_and]
    constructor
    · rintro ⟨best, ⟨hands, hall, hbest⟩, hselected⟩
      cases best with
      | none => exact nomatch hselected
      | some best =>
        rw [Recorded.outcome_bind_of_ok (Recorded.outcome_record _)] at hselected
        obtain rfl := Except.ok.inj hselected
        exact ⟨hands, hall, hbest⟩
    · rintro ⟨hands, hall, hbest⟩
      exact ⟨some b, ⟨hands, hall, hbest⟩, rfl⟩

private theorem exists_forall₂ {α β : Type} {R : α → β → Prop} {xs : List α}
    (h : ∀ x ∈ xs, ∃ y, R x y) : ∃ ys, List.Forall₂ R xs ys := by
  induction xs with
  | nil => exact ⟨[], .nil⟩
  | cons x xs ih =>
    obtain ⟨y, hy⟩ := h x List.mem_cons_self
    obtain ⟨ys, hys⟩ := ih fun x hx => h x (List.mem_cons_of_mem _ hx)
    exact ⟨y :: ys, .cons hy hys⟩

/-- A selection succeeds if the pool is large enough and all its candidates have values. -/
theorem exists_selectBest (hk : k ≤ pool.length)
    (hvalues : ∀ indices cards, IsChoice pool indices cards → indices.length = k →
      ∃ rank, evaluate cards = .ok rank) : ∃ b, (selectBest pool k).outcome = .ok b := by
  have hcandidates : ∀ candidate ∈ choose k pool.zipIdx, ∃ hand, IsValued candidate hand := by
    intro candidate hmem
    obtain ⟨hchoice, hlength⟩ := mem_choose_zipIdx_iff.mp hmem
    obtain ⟨rank, hrank⟩ := hvalues _ _ hchoice (by rw [List.length_map, hlength])
    exact ⟨⟨_, _, rank⟩, rfl, rfl, hrank⟩
  obtain ⟨hands, hall⟩ := exists_forall₂ hcandidates
  cases hbest : hands.foldl improve none with
  | some b => exact ⟨b, selectBest_eq_ok_iff.mpr ⟨hk, hands, hall, hbest⟩⟩
  | none =>
    -- the first positions make a candidate, so that some hand is kept
    obtain rfl := foldl_improve_eq_none_iff.mp hbest
    have hmem : pool.zipIdx.take k ∈ choose k pool.zipIdx := by
      refine mem_choose_iff.mpr ⟨List.take_sublist _ _, ?_⟩
      rw [List.length_take, List.length_zipIdx, Nat.min_eq_left hk]
    rw [List.forall₂_nil_right_iff.mp hall] at hmem
    exact absurd hmem List.not_mem_nil

/-! ### The selected hand -/

/-- What is related to a list, element by element, has a partner for each of its elements. -/
theorem exists_of_mem_left {α β : Type} {R : α → β → Prop} {xs : List α} {ys : List β}
    (hall : List.Forall₂ R xs ys) {x : α} (hmem : x ∈ xs) : ∃ y ∈ ys, R x y := by
  induction hall with
  | nil => exact absurd hmem List.not_mem_nil
  | cons hrel _ ih =>
    rcases List.mem_cons.mp hmem with rfl | hmem
    · exact ⟨_, List.mem_cons_self, hrel⟩
    · obtain ⟨y, hy, hrel⟩ := ih hmem
      exact ⟨y, List.mem_cons_of_mem _ hy, hrel⟩

/-- The hands of the candidates have their positions, in lexicographic order. -/
private theorem pairwise_indices_lt
    (hall : List.Forall₂ IsValued (choose k pool.zipIdx) hands) :
    hands.Pairwise fun hand hand' => hand.indices < hand'.indices := by
  have hindices : hands.map BestHand.indices =
      (choose k pool.zipIdx).map fun candidate => candidate.map Prod.snd := by
    rw [← List.forall₂_eq_eq_eq, List.forall₂_map_left_iff, List.forall₂_map_right_iff]
    exact (hall.imp fun _ _ hvalued => hvalued.indices_eq).flip
  rw [← List.pairwise_map (f := BestHand.indices) (R := (· < ·)), hindices, List.pairwise_map]
  exact pairwise_choose (pairwise_zipIdx pool 0)

/-- The selected hand is one of the choices, with its value. -/
theorem selectBest_isChoice (hok : (selectBest pool k).outcome = .ok b) :
    IsChoice pool b.indices b.cards ∧ b.indices.length = k ∧ evaluate b.cards = .ok b.rank := by
  obtain ⟨-, hands, hall, hbest⟩ := selectBest_eq_ok_iff.mp hok
  obtain ⟨before, after, hsplit, -, -⟩ := exists_split_of_foldl_improve hbest
  have hmem : b ∈ hands := hsplit ▸ List.mem_append_right _ List.mem_cons_self
  obtain ⟨candidate, hcandidate, hvalued⟩ := exists_of_mem_left hall.flip hmem
  obtain ⟨hchoice, hlength⟩ := mem_choose_zipIdx_iff.mp hcandidate
  rw [← hvalued.indices_eq, ← hvalued.cards_eq] at hchoice
  refine ⟨hchoice, ?_, hvalued.evaluate_eq⟩
  rw [hvalued.indices_eq, List.length_map, hlength]

/-- Every choice has a value, at most that of the selected hand; if it is as great, the choice does
not come before the selected one. -/
theorem exists_evaluate_le_of_isChoice (hok : (selectBest pool k).outcome = .ok b)
    {indices : List Nat} {cards : List HandCard} (hchoice : IsChoice pool indices cards)
    (hlength : indices.length = k) :
    ∃ rank, evaluate cards = .ok rank ∧ rank ≤ b.rank ∧ (b.rank ≤ rank → b.indices ≤ indices) := by
  obtain ⟨-, hands, hall, hbest⟩ := selectBest_eq_ok_iff.mp hok
  obtain ⟨before, after, hsplit, hbefore, hgreatest⟩ := exists_split_of_foldl_improve hbest
  obtain ⟨hand, hmem, hvalued⟩ := exists_of_mem_left hall (hchoice.zip_mem_choose hlength)
  have hindices : hand.indices = indices := by
    rw [hvalued.indices_eq, List.map_snd_zip hchoice.length_eq.le]
  have hcards : hand.cards = cards := by
    rw [hvalued.cards_eq, List.map_fst_zip hchoice.length_eq.ge]
  refine ⟨hand.rank, hcards ▸ hvalued.evaluate_eq, hgreatest hand hmem, fun hge => ?_⟩
  have horder := pairwise_indices_lt hall
  rw [hsplit, List.pairwise_append, List.pairwise_cons] at horder
  rw [hsplit] at hmem
  rcases List.mem_append.mp hmem with hmem | hmem
  · -- the hands before the selected one are worth less
    exact absurd hge (hbefore hand hmem)
  · rcases List.mem_cons.mp hmem with heq | hmem
    · rw [← hindices, heq]
    · rw [← hindices]
      exact le_of_lt (horder.2.1.1 hand hmem)

/-- **Selection is optimal and takes the first of equal hands.** A selection that succeeds gives
five ascending positions of the pool, the entries at them and the value of these entries. Every
other choice of five positions has a value that is not above it, and a choice with an equal value
does not come before it in lexicographic order. -/
theorem selectBest_optimal (hok : (selectBest pool k).outcome = .ok b) :
    b.indices.length = 5 ∧ IsChoice pool b.indices b.cards ∧ evaluate b.cards = .ok b.rank ∧
      ∀ indices cards, indices.length = 5 → IsChoice pool indices cards →
        ∃ rank, evaluate cards = .ok rank ∧ rank ≤ b.rank ∧
          (rank == b.rank → b.indices ≤ indices) := by
  obtain ⟨hchoice, hlength, hvalue⟩ := selectBest_isChoice hok
  have hfive : b.indices.length = 5 := by
    rw [hchoice.length_eq, length_of_evaluate_eq_ok hvalue, handSize]
  refine ⟨hfive, hchoice, hvalue, fun indices cards hindices hother => ?_⟩
  obtain ⟨rank, hrank, hle, hfirst⟩ :=
    exists_evaluate_le_of_isChoice hok hother (hindices.trans (hfive.symm.trans hlength))
  exact ⟨rank, hrank, hle, fun heq => hfirst (HandRank.beq_iff.mp heq).2⟩

/-- Of the two queens that go with aces and kings the first one is selected. -/
theorem selectBest_optimal_queens :
    ∃ b, (selectBest [.natural ⟨.spades, .ace⟩, .natural ⟨.hearts, .ace⟩,
        .natural ⟨.clubs, .king⟩, .natural ⟨.spades, .queen⟩, .natural ⟨.hearts, .queen⟩,
        .natural ⟨.hearts, .king⟩] 5).outcome = .ok b ∧
      b.indices = [0, 1, 2, 3, 5] ∧ b.rank.tiebreakers = [.ace, .king, .queen] ∧
      ∀ indices cards, indices.length = 5 →
        IsChoice [.natural ⟨.spades, .ace⟩, .natural ⟨.hearts, .ace⟩, .natural ⟨.clubs, .king⟩,
          .natural ⟨.spades, .queen⟩, .natural ⟨.hearts, .queen⟩, .natural ⟨.hearts, .king⟩]
          indices cards →
        ∃ rank, evaluate cards = .ok rank ∧ rank ≤ b.rank ∧
          (rank == b.rank → b.indices ≤ indices) :=
  ⟨_, rfl, rfl, rfl, (selectBest_optimal (k := 5) (by rfl)).2.2.2⟩

end CaliforniaPoker
