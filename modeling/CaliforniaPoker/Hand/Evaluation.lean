import CaliforniaPoker.Card.HandCard
import CaliforniaPoker.Hand.Defect
import CaliforniaPoker.Hand.Flush
import CaliforniaPoker.Hand.Grouping
import CaliforniaPoker.Hand.HandRank
import CaliforniaPoker.Hand.Straight

/-!
# Evaluation of hands

A hand has five entries, natural cards and wilds. Its value is found by trying the categories from
the highest down; in each category the wilds are spent where they give the greatest tiebreakers.

* `classify` — the category and the tiebreakers of natural cards and wilds.
* `evaluateWithWilds`, `evaluate` — the value of a hand, or why it has none.
-/

namespace CaliforniaPoker

/-- The number of entries of a hand. -/
def handSize : Nat := 5

/-- The first card of a list that equals a card before it, or one already seen. -/
def firstRepeat? (seen : List Card) : List Card → Option Card
  | [] => none
  | c :: rest => if c ∈ seen then some c else firstRepeat? (c :: seen) rest

/-- The high card of the best straight flush. -/
def straightFlushHigh? (naturals : List Card) (wilds : Nat) : Option Rank :=
  (flushSuit? naturals wilds).bind fun suit =>
    straightHigh? ((naturals.filter fun c => c.suit = suit).map Card.rank)

/-- The category and the tiebreakers of different natural cards and some wilds, five in all. -/
def classify (naturals : List Card) (wilds : Nat) : Category × List Rank :=
  let ranks := naturals.map Card.rank
  let grouping := bestGrouping? ranks wilds
  match straightFlushHigh? naturals wilds with
  | some .ace => (.royalFlush, [])
  | some high => (.straightFlush, [high])
  | none =>
  match grouping [4, 1] with
  | some found => (.fourOfAKind, found)
  | none =>
  match grouping [3, 2] with
  | some found => (.fullHouse, found)
  | none =>
  match flushRanks? naturals wilds with
  | some found => (.flush, found)
  | none =>
  match straightHigh? ranks with
  | some high => (.straight, [high])
  | none =>
  match grouping [3, 1, 1] with
  | some found => (.threeOfAKind, found)
  | none =>
  match grouping [2, 2, 1] with
  | some found => (.twoPair, found)
  | none =>
  match grouping [2, 1, 1, 1] with
  | some found => (.onePair, found)
  | none =>
  match grouping [1, 1, 1, 1, 1] with
  | some found => (.highCard, found)
  | none => (.highCard, Rank.descending.flatMap fun r => List.replicate (ranks.count r) r)

/-- The value of natural cards and a number of wilds. -/
def evaluateWithWilds (naturals : List Card) (wilds : Nat) : Except HandDefect HandRank :=
  if naturals.length + wilds ≠ handSize then
    .error (.wrongSize handSize (naturals.length + wilds))
  else
    match firstRepeat? [] naturals with
    | some card => .error (.duplicateCard card)
    | none =>
      let (category, tiebreakers) := classify naturals wilds
      let bare : HandRank := { category, tiebreakers, representative := none }
      let representative := bare.primary?.bind fun rank => naturals.find? fun c => c.rank = rank
      .ok { category, tiebreakers, representative }

/-- The value of a list of entries. -/
def evaluate (entries : List HandCard) : Except HandDefect HandRank :=
  evaluateWithWilds (entries.filterMap HandCard.card?) (entries.countP HandCard.isWild)

end CaliforniaPoker
