import CaliforniaPoker.Round

/-!
# Tables

At a table two players share a deck. What is done with the deck is a list of steps; each step gives
an outcome and leaves a deck for the next.

* `Step`, `StepOutcome` — what can be done, and what comes of it.
* `RoundOutcome` — what comes of a round.
* `Table.perform` — one step.
* `Table.run` — the deck after a list of steps.
-/

namespace CaliforniaPoker

/-- What can be done with a deck. -/
inductive Step where
  | shuffle
  | reset
  | seed
  | dealCard
  | dealPool (count : Nat)
  | dealPools
  | dealt
  | playRound
  deriving DecidableEq

/-- What comes of a round: the report or the reason why there is none, and the pools that the deck
dealt to the players. They are dealt even if a player refuses to go on with them. -/
structure RoundOutcome extends Recorded GameError RoundReport where
  /-- The pools, unless there were too few cards. -/
  pools : Option (List Card × List Card)

/-- What comes of a step. -/
inductive StepOutcome where
  | done
  | seed (seed : UInt64)
  | card (card : Option Card)
  | pool (pool : Option (List Card))
  | pools (pools : Option (List Card × List Card))
  | dealt (cards : List Card)
  | round (outcome : RoundOutcome)

/-- The events that were recorded in a step. -/
def StepOutcome.events : StepOutcome → List Event
  | round outcome => outcome.events
  | _ => []

/-- Two players who share a deck. -/
structure Table where
  first : Player
  second : Player

namespace Table

/-- One step with a deck: its outcome, and the deck after it. -/
def perform (t : Table) (deck : Deck) : Step → StepOutcome × Deck
  | .shuffle => (.done, deck.shuffle)
  | .reset => (.done, deck.reset)
  | .seed => (.seed deck.seed, deck)
  | .dealCard => let (card, deck) := deck.dealCard; (.card card, deck)
  | .dealPool count => let (pool, deck) := deck.dealPool count; (.pool pool, deck)
  | .dealPools => let (pools, deck) := deck.dealPools; (.pools pools, deck)
  | .dealt => (.dealt deck.dealt, deck)
  | .playRound =>
    let (report, rest) := CaliforniaPoker.playRound t.first t.second deck
    (.round { toRecorded := report, pools := deck.dealPools.1 }, rest)

/-- The deck after some steps. -/
def run (t : Table) (deck : Deck) (steps : List Step) : Deck :=
  steps.foldl (fun deck step => (t.perform deck step).2) deck

/-- The outcome of each of some steps, with the deck after it. -/
def outcomes (t : Table) (deck : Deck) : List Step → List (StepOutcome × Deck)
  | [] => []
  | step :: rest =>
    let (outcome, deck) := t.perform deck step
    (outcome, deck) :: t.outcomes deck rest

end Table

end CaliforniaPoker
