import CaliforniaPoker.Text.Quoted
import CaliforniaPoker.Weights.Basic

/-!
# Validation of weights

Bonuses must not be negative; position weights must be neither negative nor increasing.

* `WeightFault` — why weights, or the text given for one, are refused.
* `validate` — the weights' first fault, if they have one.
-/

namespace CaliforniaPoker

/-- Why weights are refused. -/
inductive WeightFault where
  /-- The text of the variable of a bonus is no integer. -/
  | notInteger (bonus : Bonus) (raw : String)
  /-- The text of the variable of the position weights is no list of four integers. -/
  | notFourIntegers (raw : String)
  /-- A bonus is negative. -/
  | negativeBonus (bonus : Bonus) (value : Int32)
  /-- A position weight is negative or greater than the one before. -/
  | unorderedPositions (positions : PositionWeights)
  deriving DecidableEq

/-- The position weights as a message cites them. -/
def PositionWeights.text (p : PositionWeights) : String :=
  bracketed (p.toList.map fun w => w.toInt.repr)

/-- The wording of a weight fault. -/
def WeightFault.message : WeightFault → String
  | notInteger bonus raw => bonus.overrideName ++ " must be an integer, got " ++ quoted raw
  | notFourIntegers raw => "position weights must be four integers, got " ++ quoted raw
  | negativeBonus bonus value => bonus.field ++ " must be >= 0, got " ++ value.toInt.repr
  | unorderedPositions positions =>
    positionsField ++ " must be non-negative and non-increasing, got " ++ positions.text

namespace PositionWeights

/-- No weight is negative, and none is greater than the one before. -/
def Ordered (p : PositionWeights) : Prop :=
  (∀ w ∈ p.toList, 0 ≤ w.toInt) ∧ p.second.toInt ≤ p.first.toInt ∧
    p.third.toInt ≤ p.second.toInt ∧ p.fourth.toInt ≤ p.third.toInt

instance (p : PositionWeights) : Decidable p.Ordered :=
  @instDecidableAnd _ _ (List.decidableBAll _ p.toList) inferInstance

end PositionWeights

/-- The first fault of the weights: the bonuses are looked at in the order of their fields, then
the position weights. -/
def validate (w : Weights) : Except WeightFault Unit :=
  match Bonus.all.find? fun b => (w.bonus b).toInt < 0 with
  | some b => .error (.negativeBonus b (w.bonus b))
  | none =>
    if w.positions.Ordered then .ok () else .error (.unorderedPositions w.positions)

end CaliforniaPoker
