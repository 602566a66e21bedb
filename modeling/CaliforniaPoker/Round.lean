import CaliforniaPoker.Deck.Basic
import CaliforniaPoker.Exchange
import CaliforniaPoker.Json.HandForm
import CaliforniaPoker.Opponent

/-!
# Rounds

In a round both players are dealt a pool, choose their discards, exchange them, choose the hands
that they show, and the better hand wins.

* `RoundReport` — everything that happened in a round.
* `playPools` — a round with pools that are dealt already.
* `playRound` — a round from a deck.
-/

namespace CaliforniaPoker

/-- What happened to one player in a round. -/
structure SeatReport where
  /-- The cards that the player was dealt. -/
  dealt : List Card
  /-- The positions of the cards that the player handed over. -/
  discards : DiscardChoice
  /-- The player's cards after the exchange. -/
  final : List Card
  /-- The hand that the player showed. -/
  hand : BestHand

/-- Everything that happened in a round. -/
structure RoundReport where
  /-- What happened to the first player. -/
  first : SeatReport
  /-- What happened to the second player. -/
  second : SeatReport
  /-- Who took the pot. -/
  winner : Winner

/-- A round with pools that are dealt already. -/
def playPools (first second : Player) (firstPool secondPool : List Card) :
    Recorded GameError RoundReport := do
  let firstDiscards ← first.chooseDiscards firstPool
  let secondDiscards ← second.chooseDiscards secondPool
  let (firstFinal, secondFinal) ←
    .ofExcept (exchange firstPool firstDiscards secondPool secondDiscards)
  let firstHand ← first.chooseHand firstFinal
  let secondHand ← second.chooseHand secondFinal
  let winner := showdown firstHand.rank secondHand.rank
  Recorded.record (.finished first.name second.name firstHand.rank secondHand.rank winner)
  return {
    first := { dealt := firstPool, discards := firstDiscards, final := firstFinal, hand := firstHand }
    second :=
      { dealt := secondPool, discards := secondDiscards, final := secondFinal, hand := secondHand }
    winner }

/-- A round from a deck, and the deck after it. Without sixteen cards there is no round, and the
deck stays as it is. -/
def playRound (first second : Player) (deck : Deck) : Recorded GameError RoundReport × Deck :=
  match deck.dealPools with
  | (some (firstPool, secondPool), deck) => (playPools first second firstPool secondPool, deck)
  | (none, deck) => (.fail (.invalidPoolSize (2 * poolSize) deck.remaining), deck)

/-- The JSON of a report lists what happened to both players side by side. -/
def RoundReport.toJson (r : RoundReport) : Json :=
  let both {α : Type} [JsonForm α] (f : SeatReport → α) : Json :=
    .array [CaliforniaPoker.toJson (f r.first), CaliforniaPoker.toJson (f r.second)]
  .record [("dealt", both SeatReport.dealt), ("discards", both SeatReport.discards),
    ("finals", both SeatReport.final), ("hands", both SeatReport.hand),
    ("winner", CaliforniaPoker.toJson r.winner)]

end CaliforniaPoker
