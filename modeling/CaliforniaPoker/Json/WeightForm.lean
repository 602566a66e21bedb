import CaliforniaPoker.Json.Form
import CaliforniaPoker.Weights.Basic

/-!
# JSON forms of weights

Weights are a record of nine fields, the position weights being an array of four numbers. They are
read as they are; whether they are valid is not looked at.
-/

namespace CaliforniaPoker

instance : JsonForm PositionWeights where
  toJson p := toJson p.toList
  ofJson? j := (ofJson? j).bind PositionWeights.ofList?

instance : JsonForm Weights where
  toJson w :=
    .record ((Bonus.all.map fun b => (b.field, toJson (w.bonus b))) ++
      [(positionsField, toJson w.positions)])
  ofJson? j :=
    match Json.record? (Bonus.all.map Bonus.field ++ [positionsField]) j with
    | some [some trips, some pair, some twoPair, some fourSuited, some threeSuited,
        some runOfFour, some runOfThree, some runOfTwo, some positions] => do
      let trips ← ofJson? trips
      let pair ← ofJson? pair
      let twoPair ← ofJson? twoPair
      let fourSuited ← ofJson? fourSuited
      let threeSuited ← ofJson? threeSuited
      let runOfFour ← ofJson? runOfFour
      let runOfThree ← ofJson? runOfThree
      let runOfTwo ← ofJson? runOfTwo
      let positions ← ofJson? positions
      let bonus : Bonus → Int32
        | .trips => trips
        | .pair => pair
        | .twoPair => twoPair
        | .fourSuited => fourSuited
        | .threeSuited => threeSuited
        | .runOfFour => runOfFour
        | .runOfThree => runOfThree
        | .runOfTwo => runOfTwo
      return { bonus, positions }
    | _ => none

end CaliforniaPoker
