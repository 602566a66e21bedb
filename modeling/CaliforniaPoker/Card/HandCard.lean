import CaliforniaPoker.Card.Basic

/-!
# Entries of a hand

An entry of a hand or of a pool is a natural card, or a wild that stands for whatever card makes
the hand best.
-/

namespace CaliforniaPoker

/-- A natural card or a wild. -/
inductive HandCard where
  | natural (card : Card)
  | wild
  deriving DecidableEq

namespace HandCard

/-- Whether an entry is a wild. -/
def isWild : HandCard → Bool
  | natural _ => false
  | wild => true

/-- The card of an entry that is natural. -/
def card? : HandCard → Option Card
  | natural card => some card
  | wild => none

/-- The text of an entry; an asterisk stands for a wild. -/
def text : HandCard → String
  | natural card => card.text
  | wild => "*"

end HandCard

/-- A list of entries as one line, a space between two. -/
def handCardsText (entries : List HandCard) : String :=
  " ".intercalate (entries.map HandCard.text)

end CaliforniaPoker
