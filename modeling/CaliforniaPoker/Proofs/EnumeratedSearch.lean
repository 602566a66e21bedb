import CaliforniaPoker.Proofs.Binomial
import CaliforniaPoker.Proofs.Discard
import CaliforniaPoker.Proofs.Recorded
import CaliforniaPoker.Selection

/-!
# Searches as loops over the enumeration

The selection of a hand and the list of all discard sets go through combinations that are built up
element by element. The enumeration gives out the same combinations as index lists, one at a time.
This file shows that both are loops over what the enumeration gives out: the selection looks up the
entries at the positions that it is given, and every discard set has the positions that it is given
just as they are.

## Main definitions

* `Combinations.loopM`: a loop over what an enumeration gives out.
* `considerAt`: the body of the loop of a selection.

## Main results

* `Combinations.loopM_ofSize`: a loop over all combinations.
* `selectBest_eq_loopM`: the selection of a hand is such a loop.
* `map_indices_discardChoices_eq_loopM`: so is the list of all discard sets.
-/

namespace CaliforniaPoker

/-! ### Loops -/

namespace Combinations

variable {m : Type → Type} [Monad m] {σ : Type} {visit : σ → List Nat → m σ}

/-- Asks for one index list after the other until nothing is left, `requests` times at most, and
visits each of them. -/
def loopM (visit : σ → List Nat → m σ) : Nat → Combinations → σ → m σ
  | 0, _, s => pure s
  | requests + 1, c, s =>
    match c.next with
    | (some indices, c) => do
      let s ← visit s indices
      loopM visit requests c s
    | (none, _) => pure s

/-- With as many requests as there are lists left, the loop visits all of them. -/
theorem Gives.loopM_eq {c : Combinations} {lists : List (List Nat)}
    (h : Gives c.size c.upcoming lists) {requests : Nat} (hrequests : lists.length ≤ requests)
    (s : σ) : c.loopM visit requests s = lists.foldlM visit s := by
  induction requests generalizing c lists s with
  | zero =>
    obtain rfl := List.length_eq_zero_iff.mp (Nat.le_zero.mp hrequests)
    rfl
  | succ requests ih =>
    obtain ⟨size, upcoming⟩ := c
    cases h with
    | done => rfl
    | next h =>
      rw [List.foldlM_cons]
      exact bind_congr fun s => ih h (Nat.le_of_succ_le_succ hrequests) s

/-- From its start on, a loop visits all combinations of the indices. -/
theorem loopM_ofSize {n k requests : Nat} (hrequests : binomial n k ≤ requests) (s : σ) :
    (ofSize n k).loopM visit requests s = (choose k (List.range n)).foldlM visit s :=
  (gives_ofSize n k).loopM_eq (by rwa [length_choose_range]) s

end Combinations

/-! ### The selection of a hand -/

variable {pool : List HandCard} {k : Nat} {candidate : List (HandCard × Nat)}

/-- Evaluates the entries of a pool at some positions and compares them with the best hand so
far. -/
def considerAt (pool : List HandCard) (best : Option BestHand) (indices : List Nat) :
    Recorded GameError (Option BestHand) := do
  let cards := indices.filterMap (pool[·]?)
  let rank ← .ofExcept ((evaluate cards).mapError .malformedHand)
  Recorded.record (.candidate indices rank.category)
  return improve best { indices, cards, rank }

/-- A candidate is the entries of the pool at its positions. -/
theorem considerAt_map_snd (hcandidate : candidate ∈ choose k pool.zipIdx)
    (best : Option BestHand) :
    considerAt pool best (candidate.map Prod.snd) = consider best candidate := by
  obtain ⟨hchoice, -⟩ := mem_choose_zipIdx_iff.mp hcandidate
  rw [considerAt, hchoice.filterMap_eq]
  rfl

/-- Candidates are looked at in the same way when only their positions are given. -/
theorem foldlM_considerAt {candidates : List (List (HandCard × Nat))}
    (hall : ∀ candidate ∈ candidates, candidate ∈ choose k pool.zipIdx) (best : Option BestHand) :
    (candidates.map (List.map Prod.snd)).foldlM (considerAt pool) best =
      candidates.foldlM consider best := by
  induction candidates generalizing best with
  | nil => rfl
  | cons candidate candidates ih =>
    obtain ⟨hcandidate, hcandidates⟩ := List.forall_mem_cons.mp hall
    rw [List.map_cons, List.foldlM_cons, List.foldlM_cons, considerAt_map_snd hcandidate]
    exact bind_congr fun best => ih hcandidates best

/-- **The selection is a loop over the enumeration.** It looks at the entries at the positions that
the enumeration gives out, in this order, and stops at the first that are no hand. As many requests
as there are combinations are enough. -/
theorem selectBest_eq_loopM (pool : List HandCard) {k requests : Nat}
    (hrequests : binomial pool.length k ≤ requests) : selectBest pool k =
      if pool.length < k then .fail (.subsetTooLarge k pool.length)
      else (do
        match ← (Combinations.ofSize pool.length k).loopM (considerAt pool) requests none with
        | some best =>
          Recorded.record (.selected best.indices best.rank)
          return best
        | none => .fail (.malformedHand (.wrongSize handSize k))) := by
  rw [selectBest, Combinations.loopM_ofSize hrequests, ← map_snd_choose_zipIdx,
    foldlM_considerAt (fun _ => id), foldChooseM_eq_foldlM]
  rfl

/-! ### Discard sets -/

/-- **The discard sets are what the enumeration gives out.** A loop that collects the lists of four
positions out of eight collects the positions of the discard sets, in their order and none of them
sorted or left out. -/
theorem map_indices_discardChoices_eq_loopM {requests : Nat} (hrequests : 70 ≤ requests) :
    discardChoices.map DiscardChoice.indices =
      Id.run ((Combinations.ofSize poolSize discardSize).loopM
        (fun found indices => pure (found ++ [indices])) requests []) := by
  have hcount : binomial poolSize discardSize = 70 := by decide
  rw [Combinations.loopM_ofSize (hcount.le.trans hrequests), List.foldlM_pure, Id.run_pure,
    List.foldl_append_eq_append, List.nil_append, map_indices_discardChoices]
  exact (List.flatMap_singleton' _).symm

end CaliforniaPoker
