import CaliforniaPoker.Card.Basic

/-!
# Flushes

Natural cards and wilds make a flush when some suit has five cards counting the wilds. The wilds
then stand for the highest ranks of that suit that are not held.

* `flushSuit?` — the suit of the flush.
* `flushRanks?` — the ranks of the best flush, descending.
-/

namespace CaliforniaPoker

/-- The first suit that has five cards when the wilds are counted in. -/
def flushSuit? (naturals : List Card) (wilds : Nat) : Option Suit :=
  Suit.all.find? fun suit => 5 ≤ (naturals.countP fun c => c.suit = suit) + wilds

/-- Those of some ranks that are held, and the first of the others as far as the spare ones go. -/
def fillRanks (held : List Rank) : Nat → List Rank → List Rank
  | _, [] => []
  | spare, rank :: rest =>
    if rank ∈ held then rank :: fillRanks held spare rest
    else
      match spare with
      | 0 => fillRanks held 0 rest
      | spare + 1 => rank :: fillRanks held spare rest

/-- The ranks of the best flush, descending. -/
def flushRanks? (naturals : List Card) (wilds : Nat) : Option (List Rank) :=
  (flushSuit? naturals wilds).map fun suit =>
    let held := (naturals.filter fun c => c.suit = suit).map Card.rank
    fillRanks held wilds Rank.descending

end CaliforniaPoker
