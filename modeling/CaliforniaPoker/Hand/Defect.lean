import CaliforniaPoker.Card.Basic

/-!
# Why a hand is refused

A list of entries is no hand when it does not have five of them, or when a natural card is in it
twice.
-/

namespace CaliforniaPoker

/-- Why a list of entries has no value as a hand. -/
inductive HandDefect where
  /-- The list does not have the right number of entries. -/
  | wrongSize (expected actual : Nat)
  /-- A natural card equals an earlier one. -/
  | duplicateCard (card : Card)
  deriving DecidableEq

/-- The wording of a hand defect. -/
def HandDefect.message : HandDefect → String
  | wrongSize expected actual => s!"expected {expected} cards, got {actual}"
  | duplicateCard card => "card " ++ card.text ++ " appears more than once"

end CaliforniaPoker
