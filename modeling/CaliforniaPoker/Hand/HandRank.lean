import CaliforniaPoker.Card.Basic
import CaliforniaPoker.Hand.Category

/-!
# Values of hands

The value of a hand is its category and its tiebreakers, the ranks that decide between hands of one
category, most significant first. Hands are compared by category and then by their tiebreakers in
lexicographic order. The representative card is carried along for display and decides nothing.
-/

namespace CaliforniaPoker

/-- The value of a five-card hand. -/
structure HandRank where
  /-- The category of the hand. -/
  category : Category
  /-- The ranks that decide within the category, most significant first. -/
  tiebreakers : List Rank
  /-- The first natural card of the rank that names the hand, if there is one. -/
  representative : Option Card

namespace HandRank

/-- By category, then by tiebreakers in lexicographic order. -/
instance : Ord HandRank := ⟨compareLex (compareOn category) (compareOn tiebreakers)⟩

/-- Two values are equal when neither beats the other, whatever their representatives. -/
instance : BEq HandRank := ⟨fun a b => compare a b == .eq⟩

/-- Whether the first value wins against the second. -/
def beats (a b : HandRank) : Bool := compare a b == .gt

/-- The rank that names the hand; a royal flush is named by its ace. -/
def primary? (h : HandRank) : Option Rank :=
  match h.category with
  | .royalFlush => some .ace
  | _ => h.tiebreakers.head?

/-- The values of a list in ascending order, each with its position; equal values keep theirs. -/
def sort (hands : List HandRank) : List (HandRank × Nat) :=
  hands.zipIdx.mergeSort fun a b => (compare a.1 b.1).isLE

end HandRank

end CaliforniaPoker
