/-!
# Hand categories

The ten categories from high card to royal flush, their codes 0 to 9, and the older numbering in
which a royal flush counts as a straight flush.
-/

namespace CaliforniaPoker

/-- The category of a five-card hand. -/
inductive Category where
  | highCard
  | onePair
  | twoPair
  | threeOfAKind
  | straight
  | flush
  | fullHouse
  | fourOfAKind
  | straightFlush
  | royalFlush
  deriving DecidableEq

namespace Category

/-- The categories from lowest to highest. -/
def all : List Category :=
  [highCard, onePair, twoPair, threeOfAKind, straight, flush, fullHouse, fourOfAKind,
    straightFlush, royalFlush]

/-- The code of a category, 0 to 9. -/
def code : Category → Nat
  | highCard => 0
  | onePair => 1
  | twoPair => 2
  | threeOfAKind => 3
  | straight => 4
  | flush => 5
  | fullHouse => 6
  | fourOfAKind => 7
  | straightFlush => 8
  | royalFlush => 9

instance : Ord Category := ⟨compareOn code⟩

/-- The category with a given code. -/
def ofCode? (code : Nat) : Option Category := all[code]?

/-- The code of a category where a royal flush counts as a straight flush. -/
def legacyCode : Category → Nat
  | royalFlush => straightFlush.code
  | c => c.code

/-- The English name of a category. -/
def name : Category → String
  | highCard => "High Card"
  | onePair => "Pair"
  | twoPair => "Two Pair"
  | threeOfAKind => "Three of a Kind"
  | straight => "Straight"
  | flush => "Flush"
  | fullHouse => "Full House"
  | fourOfAKind => "Four of a Kind"
  | straightFlush => "Straight Flush"
  | royalFlush => "Royal Flush"

/-- The name of a category in JSON. -/
def key : Category → String
  | highCard => "HighCard"
  | onePair => "OnePair"
  | twoPair => "TwoPair"
  | threeOfAKind => "ThreeOfAKind"
  | straight => "Straight"
  | flush => "Flush"
  | fullHouse => "FullHouse"
  | fourOfAKind => "FourOfAKind"
  | straightFlush => "StraightFlush"
  | royalFlush => "RoyalFlush"

theorem ofCode?_code (c : Category) : ofCode? c.code = some c := by cases c <;> rfl

theorem code_injective {a b : Category} (h : a.code = b.code) : a = b :=
  Option.some.inj (by rw [← ofCode?_code a, h, ofCode?_code])

end Category

end CaliforniaPoker
