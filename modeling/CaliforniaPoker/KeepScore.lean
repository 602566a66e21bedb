import CaliforniaPoker.Card.Basic
import CaliforniaPoker.Weights.Basic

/-!
# The score of kept cards

The opponent does not look ahead at the cards it may receive; it scores the cards that it would keep
by their groups of equal rank, their suits, their straight draws and their height. Scores are exact
integers.

* `straightPotential` — the length of the best straight draw.
* `keepScore` — the score of kept cards under some weights.
-/

namespace CaliforniaPoker

/-- The different values of a list in descending order. -/
def distinctDescending (values : List Nat) : List Nat :=
  values.eraseDups.mergeSort fun a b => b ≤ a

/-- The length of the longest run of consecutive values. -/
def longestRun (values : List Nat) : Nat :=
  let runs := (distinctDescending values).splitBy fun a b => a == b + 1
  (runs.map List.length).foldl max 0

/-- How much of the wheel is there: with an ace, the number of the values two to five that occur,
if there are at least two of them. -/
def wheelDraw (values : List Nat) : Nat :=
  let low := [2, 3, 4, 5].countP fun v => values.contains v
  if values.contains Rank.ace.value && 2 ≤ low then low else 0

/-- The length of the best straight draw among some rank values. -/
def straightPotential (values : List Nat) : Nat := max (longestRun values) (wheelDraw values)

/-- The sizes of the groups of equal values, in descending order. -/
def groupSizes (values : List Nat) : List Nat :=
  (values.eraseDups.map fun v => values.count v).mergeSort fun a b => b ≤ a

/-- The bonus for groups of equal rank. Four cards of one rank earn none. -/
def groupBonus (w : Weights) (values : List Nat) : Int :=
  match groupSizes values with
  | 3 :: _ => (w.bonus .trips).toInt
  | 2 :: 2 :: _ => (w.bonus .pair).toInt + (w.bonus .twoPair).toInt
  | 2 :: _ => (w.bonus .pair).toInt
  | _ => 0

/-- The bonus for cards of one suit. -/
def suitBonus (w : Weights) (cards : List Card) : Int :=
  match (Suit.all.map fun s => cards.countP fun c => c.suit = s).foldl max 0 with
  | 4 => (w.bonus .fourSuited).toInt
  | 3 => (w.bonus .threeSuited).toInt
  | _ => 0

/-- The bonus for a straight draw of a given length. -/
def straightBonus (w : Weights) : Nat → Int
  | 4 => (w.bonus .runOfFour).toInt
  | 3 => (w.bonus .runOfThree).toInt
  | 2 => (w.bonus .runOfTwo).toInt
  | _ => 0

/-- The values in descending order, each multiplied by the weight of its position. -/
def heightScore (w : Weights) (values : List Nat) : Int :=
  let sorted := values.mergeSort fun a b => b ≤ a
  (List.zipWith (fun (v : Nat) (weight : Int32) => v * weight.toInt) sorted
    w.positions.toList).foldr (· + ·) 0

/-- The score of kept cards. -/
def keepScore (w : Weights) (cards : List Card) : Int :=
  let values := cards.map fun c => c.rank.value
  groupBonus w values + suitBonus w cards + straightBonus w (straightPotential values) +
    heightScore w values

end CaliforniaPoker
