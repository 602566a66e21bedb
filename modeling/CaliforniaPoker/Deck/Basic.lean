import CaliforniaPoker.Deck.Shuffle
import CaliforniaPoker.Discard

/-!
# Decks

A deck is dealt from the front. The dealt cards stay known until the next shuffle or reset, both of
which gather every card back; shuffles take their random words from a stream that is never rewound.

* `Deck` — the dealt cards, those still to be dealt, and the stream.
* `Deck.shuffle`, `Deck.reset` — gathering the cards.
* `Deck.dealCard`, `Deck.dealPool`, `Deck.dealPools` — dealing; a deal that is refused changes
  nothing.
-/

namespace CaliforniaPoker

/-- A deck of cards. -/
structure Deck where
  /-- The cards dealt since they were last gathered, in order. -/
  dealt : List Card
  /-- The cards still to be dealt, in order. -/
  undealt : List Card
  /-- The random words for the shuffles to come. -/
  stream : Keystream

namespace Deck

/-- A deck in the order of the deck ids, whose shuffles are determined by a seed. -/
def ofSeed (seed : UInt64) : Deck :=
  { dealt := [], undealt := fullDeck, stream := Keystream.ofSeed seed }

/-- The seed of a deck. -/
def seed (d : Deck) : UInt64 := d.stream.seed

/-- The number of cards still to be dealt. -/
def remaining (d : Deck) : Nat := d.undealt.length

/-- Gathers the cards in the order of the deck ids; the stream goes on where it was. -/
def reset (d : Deck) : Deck := { d with dealt := [], undealt := fullDeck }

/-- Gathers the cards and shuffles them. -/
def shuffle (d : Deck) : Deck :=
  let shuffled := CaliforniaPoker.shuffle fullDeck d.stream
  { dealt := [], undealt := shuffled.1, stream := shuffled.2 }

/-- A deck that has been shuffled once. -/
def shuffled (seed : UInt64) : Deck := (ofSeed seed).shuffle

/-- Deals one card, if there is one. -/
def dealCard (d : Deck) : Option Card × Deck :=
  match d.undealt with
  | [] => (none, d)
  | card :: undealt => (some card, { d with dealt := d.dealt ++ [card], undealt })

/-- Deals a number of cards, or none at all if there are fewer. -/
def dealPool (d : Deck) (count : Nat) : Option (List Card) × Deck :=
  if d.remaining < count then (none, d)
  else
    let pool := d.undealt.take count
    (some pool, { d with dealt := d.dealt ++ pool, undealt := d.undealt.drop count })

/-- Deals a pool to each of two players, or none at all if there are too few cards. -/
def dealPools (d : Deck) : Option (List Card × List Card) × Deck :=
  match d.dealPool (2 * poolSize) with
  | (none, d) => (none, d)
  | (some cards, d) => (some (cards.take poolSize, cards.drop poolSize), d)

end Deck

end CaliforniaPoker
