import CaliforniaPoker.Discard
import CaliforniaPoker.Hand.Defect

/-!
# Errors of the game

What can go wrong with cards, hands, pools and discards, each with its cause.
-/

namespace CaliforniaPoker

/-- Why an operation of the game is refused. -/
inductive GameError where
  /-- Something given for a card is none. -/
  | invalidCard (defect : CardDefect)
  /-- Something given for a hand is none. -/
  | malformedHand (defect : HandDefect)
  /-- A pool, or what a deck has left for pools, does not have the right number of cards. -/
  | invalidPoolSize (expected actual : Nat)
  /-- More cards are to be chosen than there are. -/
  | subsetTooLarge (count pool : Nat)
  /-- Something given for a discard set is none. -/
  | invalidDiscard (defect : DiscardDefect)
  deriving DecidableEq

/-- The wording of an error of the game. -/
def GameError.message : GameError → String
  | invalidCard defect => "Invalid card: " ++ defect.message
  | malformedHand defect => "Malformed hand: " ++ defect.message
  | invalidPoolSize expected actual =>
    s!"Invalid pool size: expected {expected} cards, got {actual}"
  | subsetTooLarge count pool => s!"Cannot choose {count} cards from a pool of {pool}"
  | invalidDiscard defect => "Invalid discard set: " ++ defect.message

end CaliforniaPoker
