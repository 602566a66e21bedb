import CaliforniaPoker.GameError

/-!
# The exchange

Each player keeps four cards and receives the four that the other one discards.

* `split` — the kept and the discarded cards of a pool.
* `exchange` — both players' pools after the exchange, by deck id.
-/

namespace CaliforniaPoker

/-- The kept and the discarded cards of a pool, both in the order of the pool. -/
def split (discards : DiscardChoice) (pool : List Card) :
    Except GameError (List Card × List Card) :=
  if pool.length ≠ poolSize then .error (.invalidPoolSize poolSize pool.length)
  else .ok (discards.kept pool, discards.discarded pool)

/-- The pools after both players handed their discards over, each by ascending deck id. -/
def exchange (first : List Card) (firstDiscards : DiscardChoice) (second : List Card)
    (secondDiscards : DiscardChoice) : Except GameError (List Card × List Card) := do
  let (firstKept, firstOut) ← split firstDiscards first
  let (secondKept, secondOut) ← split secondDiscards second
  return (Card.sortById (firstKept ++ secondOut), Card.sortById (secondKept ++ firstOut))

end CaliforniaPoker
