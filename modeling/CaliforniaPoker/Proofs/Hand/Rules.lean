import CaliforniaPoker.Hand.Evaluation
import Mathlib.Algebra.Ring.Nat
import Mathlib.Data.List.Dedup
import Mathlib.Data.List.Sort

/-!
# The rules of poker

The value of five different natural cards, as the rules give it and without any search: a hand is
looked up from the highest category down, and the first category whose marks it shows decides.

## Main definitions

* `byMultiplicity`, `multiplicities`: the different ranks of a list, those that occur more often
  first, and how often each of them occurs.
* `FullHand`: five different natural cards.
* `FullHand.IsFlush`, `FullHand.IsStraight`: the marks of flushes and of straights.
* `FullHand.marks?`: the tiebreakers of a hand in a category, if it shows the marks of it.
* `FullHand.ruledValue?`: the category and the tiebreakers that the rules give.
-/

namespace CaliforniaPoker

/-! ### Ranks by their multiplicity -/

/-- Among some ranks, `a` comes before `b` if it occurs more often, or as often and is not lower. -/
def Precedes (ranks : List Rank) (a b : Rank) : Prop :=
  ranks.count b < ranks.count a ∨ ranks.count b = ranks.count a ∧ b.value ≤ a.value

instance (ranks : List Rank) : DecidableRel (Precedes ranks) :=
  fun _ _ => inferInstanceAs (Decidable (_ ∨ _))

/-- The different ranks of a list, the more frequent ones first and the higher first among equally
frequent ones. -/
def byMultiplicity (ranks : List Rank) : List Rank := ranks.dedup.insertionSort (Precedes ranks)

/-- How often the different ranks of a list occur, in descending order. -/
def multiplicities (ranks : List Rank) : List Nat := (byMultiplicity ranks).map ranks.count

example : byMultiplicity [.four, .ace, .four, .nine, .ace] = [.ace, .four, .nine] := by decide

/-! ### Hands without wilds -/

/-- Five different natural cards. -/
structure FullHand where
  /-- The cards of the hand, in any order. -/
  cards : List Card
  length_eq : cards.length = handSize
  nodup : cards.Nodup

namespace FullHand

variable (hand : FullHand)

/-- The ranks of the cards. -/
def ranks : List Rank := hand.cards.map Card.rank

/-- All cards are of one suit. -/
def IsFlush : Prop := ∀ a ∈ hand.cards, ∀ b ∈ hand.cards, a.suit = b.suit

instance : Decidable hand.IsFlush :=
  inferInstanceAs (Decidable (∀ a ∈ hand.cards, ∀ b ∈ hand.cards, a.suit = b.suit))

/-- The ranks are five consecutive ones that end in `high`, or they are the ace and the two to the
five, which end in the five. -/
def IsStraight (high : Rank) : Prop :=
  6 ≤ high.value ∧ (hand.ranks.map Rank.value).Perm (List.range' (high.value - 4) 5) ∨
    high = .five ∧ hand.ranks.Perm [.ace, .two, .three, .four, .five]

instance (high : Rank) : Decidable (hand.IsStraight high) := inferInstanceAs (Decidable (_ ∨ _))

/-- The rank in which the straight ends, if the ranks are one. -/
def straightHigh? : Option Rank := Rank.all.find? fun high => hand.IsStraight high

/-- The different ranks in order, if they occur as often as the given sizes say. -/
def groups? (sizes : List Nat) : Option (List Rank) :=
  if multiplicities hand.ranks = sizes then some (byMultiplicity hand.ranks) else none

/-- The tiebreakers of a hand in a category, if it shows the marks of this category. A hand may
show the marks of several categories. -/
def marks? : Category → Option (List Rank)
  | .royalFlush => if hand.IsFlush ∧ hand.IsStraight .ace then some [] else none
  | .straightFlush => if hand.IsFlush then hand.straightHigh?.map ([·]) else none
  | .fourOfAKind => hand.groups? [4, 1]
  | .fullHouse => hand.groups? [3, 2]
  | .flush => if hand.IsFlush then some (byMultiplicity hand.ranks) else none
  | .straight => hand.straightHigh?.map ([·])
  | .threeOfAKind => hand.groups? [3, 1, 1]
  | .twoPair => hand.groups? [2, 2, 1]
  | .onePair => hand.groups? [2, 1, 1, 1]
  | .highCard => hand.groups? [1, 1, 1, 1, 1]

/-- The category and the tiebreakers that the rules give: those of the highest category whose marks
the hand shows. -/
def ruledValue? : Option (Category × List Rank) :=
  Category.all.reverse.findSome? fun category => (hand.marks? category).map (category, ·)

end FullHand

end CaliforniaPoker
