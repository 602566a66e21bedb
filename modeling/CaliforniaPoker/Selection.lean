import CaliforniaPoker.Bitfield
import CaliforniaPoker.Combinations
import CaliforniaPoker.Event
import CaliforniaPoker.GameError
import CaliforniaPoker.Hand.Evaluation

/-!
# Selection of the best hand

From a pool with more entries than a hand, the best hand is found by looking at every candidate in
lexicographic order of positions. A candidate replaces the best one so far only if it beats it, so
that of equal candidates the first is chosen.

* `BestHand` — the chosen positions, their entries and their value.
* `selectBest` — the search, with a record of every candidate.
-/

namespace CaliforniaPoker

/-- The hand chosen from a pool. -/
structure BestHand where
  /-- The chosen positions of the pool, ascending. -/
  indices : List Nat
  /-- The entries at these positions. -/
  cards : List HandCard
  /-- The value of these entries. -/
  rank : HandRank

/-- The chosen positions as a bitfield. -/
def BestHand.bitfield (b : BestHand) : Nat := bitfieldOf b.indices

/-- The better of the best hand so far and a new one; the earlier one stays on a tie. -/
def improve (best : Option BestHand) (new : BestHand) : Option BestHand :=
  match best with
  | some current => if new.rank.beats current.rank then some new else some current
  | none => some new

/-- Evaluates one candidate, a list of entries with their positions, and compares it with the best
hand so far. -/
def consider (best : Option BestHand) (candidate : List (HandCard × Nat)) :
    Recorded GameError (Option BestHand) := do
  let cards := candidate.map Prod.fst
  let indices := candidate.map Prod.snd
  let rank ← .ofExcept ((evaluate cards).mapError .malformedHand)
  Recorded.record (.candidate indices rank.category)
  return improve best { indices, cards, rank }

/-- The best hand of `k` entries of a pool, every candidate being recorded. -/
def selectBest (pool : List HandCard) (k : Nat) : Recorded GameError BestHand :=
  if pool.length < k then .fail (.subsetTooLarge k pool.length)
  else do
    match ← foldChooseM consider k pool.zipIdx [] none with
    | some best =>
      Recorded.record (.selected best.indices best.rank)
      return best
    | none => .fail (.malformedHand (.wrongSize handSize k))

/-- The best hand of `k` cards of a pool without wilds. -/
def selectBestCards (pool : List Card) (k : Nat) : Recorded GameError BestHand :=
  selectBest (pool.map .natural) k

end CaliforniaPoker
