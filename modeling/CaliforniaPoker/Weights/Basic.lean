/-!
# Weights of the opponent

The opponent scores the cards it might keep with eight bonuses and four position weights, one for
each kept card by descending rank. The same nine fields occur with other contents, as what a file
gives or as where a value came from, so the record of them is generic.

* `Bonus` — the eight bonuses, with the names of their fields and variables.
* `PositionWeights` — the four multipliers.
* `Settings` — nine fields of any content; `Weights` holds numbers in them.
* `defaultWeights` — the weights that hold when nothing else is said.
-/

namespace CaliforniaPoker

/-- The bonuses that kept cards can earn. -/
inductive Bonus where
  /-- Exactly three cards of one rank. -/
  | trips
  /-- Two cards of one rank and no more. -/
  | pair
  /-- Added to the bonus for a pair when a second rank is paired. -/
  | twoPair
  /-- Four cards of one suit. -/
  | fourSuited
  /-- Three cards of one suit. -/
  | threeSuited
  /-- Four ranks towards a straight. -/
  | runOfFour
  /-- Three ranks towards a straight. -/
  | runOfThree
  /-- Two ranks towards a straight. -/
  | runOfTwo
  deriving DecidableEq

namespace Bonus

/-- The bonuses in the order of their fields. -/
def all : List Bonus :=
  [trips, pair, twoPair, fourSuited, threeSuited, runOfFour, runOfThree, runOfTwo]

/-- The name of the field that holds a bonus. -/
def field : Bonus → String
  | trips => "trips_bonus"
  | pair => "pair_bonus"
  | twoPair => "two_pair_bonus"
  | fourSuited => "four_suited_bonus"
  | threeSuited => "three_suited_bonus"
  | runOfFour => "run_of_four_bonus"
  | runOfThree => "run_of_three_bonus"
  | runOfTwo => "run_of_two_bonus"

/-- The name of the environment variable that overrides a bonus. -/
def overrideName : Bonus → String
  | trips => "CALPOKER_AI_TRIPS_BONUS"
  | pair => "CALPOKER_AI_PAIR_BONUS"
  | twoPair => "CALPOKER_AI_TWO_PAIR_BONUS"
  | fourSuited => "CALPOKER_AI_FOUR_SUITED_BONUS"
  | threeSuited => "CALPOKER_AI_THREE_SUITED_BONUS"
  | runOfFour => "CALPOKER_AI_RUN_OF_FOUR_BONUS"
  | runOfThree => "CALPOKER_AI_RUN_OF_THREE_BONUS"
  | runOfTwo => "CALPOKER_AI_RUN_OF_TWO_BONUS"

theorem mem_all (b : Bonus) : b ∈ all := by cases b <;> decide

end Bonus

/-- The name of the field that holds the position weights. -/
def positionsField : String := "position_weights"

/-- The name of the environment variable that overrides the position weights. -/
def positionsOverrideName : String := "CALPOKER_AI_POSITION_WEIGHTS"

/-- The multipliers of the kept ranks, the highest rank first. -/
structure PositionWeights where
  first : Int32
  second : Int32
  third : Int32
  fourth : Int32
  deriving DecidableEq

namespace PositionWeights

/-- The four multipliers in order. -/
def toList (p : PositionWeights) : List Int32 := [p.first, p.second, p.third, p.fourth]

/-- The position weights with these multipliers, if they are four. -/
def ofList? : List Int32 → Option PositionWeights
  | [first, second, third, fourth] => some { first, second, third, fourth }
  | _ => none

theorem ofList?_toList (p : PositionWeights) : ofList? p.toList = some p := rfl

end PositionWeights

/-- The nine fields of the opponent's weights: one for each bonus, and the position weights. -/
structure Settings (β π : Type) where
  /-- The content of the field of a bonus. -/
  bonus : Bonus → β
  /-- The content of the field of the position weights. -/
  positions : π

/-- The weights themselves. -/
abbrev Weights : Type := Settings Int32 PositionWeights

/-- The weights that hold when nothing else is said. -/
def defaultWeights : Weights where
  bonus
    | .trips => 1000
    | .pair => 500
    | .twoPair => 300
    | .fourSuited => 400
    | .threeSuited => 100
    | .runOfFour => 300
    | .runOfThree => 100
    | .runOfTwo => 30
  positions := { first := 5, second := 4, third := 3, fourth := 2 }

end CaliforniaPoker
