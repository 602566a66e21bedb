import CaliforniaPoker.Card.Rank
import CaliforniaPoker.Card.Suit

/-!
# Cards

A card is a suit and a rank. Cards are ordered by suit and then by rank; a full deck lists them by
deck id, that is by rank and then by suit.

* `Card.id`, `Card.ofId` — the numbering 0 to 51.
* `fullDeck` — the 52 cards in the order of their ids.
-/

namespace CaliforniaPoker

/-- A playing card. -/
structure Card where
  /-- The suit of the card. -/
  suit : Suit
  /-- The rank of the card. -/
  rank : Rank
  deriving DecidableEq

namespace Card

instance : Ord Card := ⟨compareLex (compareOn suit) (compareOn rank)⟩

/-- The card with a given rank value and suit value; the rank is looked at first. -/
def ofValues (rank suit : Nat) : Except CardDefect Card := do
  let rank ← Rank.ofValue rank
  let suit ← Suit.ofValue suit
  return { suit, rank }

/-- The deck id of a card, 0 to 51. -/
def id (c : Card) : Nat := (c.rank.value - 2) * 4 + (c.suit.value - 1)

/-- The card with a given deck id. -/
def ofId (id : Nat) : Except CardDefect Card :=
  if 52 ≤ id then .error (.idOutOfRange id) else ofValues (id / 4 + 2) (id % 4 + 1)

/-- The text of a card: its rank, then its suit. -/
def text (c : Card) : String := String.ofList [c.rank.symbol, c.suit.symbol]

/-- The cards of a list in ascending order. -/
def sort (cards : List Card) : List Card :=
  cards.mergeSort fun a b => (compare a b).isLE

/-- The cards of a list by ascending deck id. -/
def sortById (cards : List Card) : List Card :=
  cards.mergeSort fun a b => a.id ≤ b.id

theorem ofId_id (c : Card) : ofId c.id = .ok c := by
  obtain ⟨s, r⟩ := c
  cases s <;> cases r <;> rfl

end Card

/-- The 52 cards by ascending deck id. -/
def fullDeck : List Card :=
  Rank.all.flatMap fun rank => Suit.all.map fun suit => { suit, rank }

theorem mem_fullDeck (c : Card) : c ∈ fullDeck := by
  obtain ⟨s, r⟩ := c
  cases s <;> cases r <;> decide

theorem fullDeck_map_id : fullDeck.map Card.id = List.range 52 := by decide

/-- A list of cards as one line, a space between two. -/
def cardsText (cards : List Card) : String := " ".intercalate (cards.map Card.text)

end CaliforniaPoker
