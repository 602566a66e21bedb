import CaliforniaPoker.Text.Numeral
import CaliforniaPoker.Toml.Reading
import CaliforniaPoker.Weights.Basic

/-!
# Weights files

A weights file assigns integers to any of the fields for the bonuses, and an array of integers to
the position weights. Names that are no fields are refused. Of the array the first four items
count; it may have more, whose values are never asked for.

* `FileWeights` — the fields that a file gives.
* `readWeightsFile?` — the fields of the text of a file.
-/

namespace CaliforniaPoker

/-- The fields that a weights file gives. -/
abbrev FileWeights : Type := Settings (Option Int32) (Option PositionWeights)

/-- The fields of a file that gives none. -/
def FileWeights.empty : FileWeights := { bonus := fun _ => none, positions := none }

/-- The weight that a value of a file stands for. -/
def fileWeight? : Toml.Value → Option Int32
  | .integer literal => literal.value?.bind Numeral.int32?
  | _ => none

/-- The position weights that a value of a file stands for. -/
def filePositions? : Toml.Value → Option PositionWeights
  | .array items => ((items.take 4).mapM fileWeight?).bind PositionWeights.ofList?
  | _ => none

/-- Whether an assignment gives a field a value that fits it. -/
def isFieldAssignment (assignment : List String × Toml.Value) : Bool :=
  match assignment with
  | ([name], value) =>
    if name = positionsField then (filePositions? value).isSome
    else Bonus.all.any (fun b => b.field == name) && (fileWeight? value).isSome
  | _ => false

/-- The value that assignments give to a field. -/
def assigned? (assignments : List (List String × Toml.Value)) (field : String) :
    Option Toml.Value :=
  (assignments.find? fun assignment => assignment.1 == [field]).map Prod.snd

/-- The fields that the text of a file gives, if it is a weights file. -/
def readWeightsFile? (text : String) : Option FileWeights := do
  let assignments ← Toml.parse? text
  if assignments.all isFieldAssignment then
    return {
      bonus := fun b => (assigned? assignments b.field).bind fileWeight?
      positions := (assigned? assignments positionsField).bind filePositions? }
  else none

end CaliforniaPoker
