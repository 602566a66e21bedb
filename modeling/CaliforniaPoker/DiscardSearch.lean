import CaliforniaPoker.Event
import CaliforniaPoker.GameError
import CaliforniaPoker.KeepScore

/-!
# The search for discards

All seventy discard sets of a pool are scored, in ascending order, by the cards they leave. The
first one with the greatest score is chosen.

* `firstBest` — the first of some scored entries with the greatest score.
* `bestDiscard` — the search, with a record of every score.
-/

namespace CaliforniaPoker

/-- The first of some scored entries whose score no other exceeds. -/
def firstBest {α : Type} (first : α × Int) (rest : List (α × Int)) : α × Int :=
  rest.foldl (fun best new => if best.2 < new.2 then new else best) first

/-- Scores the cards that a discard set leaves of a pool. -/
def scoreDiscard (w : Weights) (pool : List Card) (d : DiscardChoice) :
    Recorded GameError (DiscardChoice × Int) := do
  let score := keepScore w (d.kept pool)
  Recorded.record (.scored d.indices score)
  return (d, score)

/-- The discard set that leaves the best cards of a pool. -/
def bestDiscard (w : Weights) (pool : List Card) : Recorded GameError DiscardChoice :=
  if pool.length ≠ poolSize then .fail (.invalidPoolSize poolSize pool.length)
  else do
    let first ← scoreDiscard w pool .lowest
    let rest ← (discardChoices.filter (· ≠ .lowest)).mapM (scoreDiscard w pool)
    let (best, score) := firstBest first rest
    Recorded.record (.discarded best.indices best.keepIndices score)
    return best

end CaliforniaPoker
