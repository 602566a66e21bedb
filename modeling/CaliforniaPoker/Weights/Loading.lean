import CaliforniaPoker.Event
import CaliforniaPoker.Text.Blank
import CaliforniaPoker.Weights.Environment
import CaliforniaPoker.Weights.File

/-!
# Loading weights

Each of the nine fields is taken from its own variable if that is set, else from the weights file,
else from the defaults; the fields that result are validated together. The first fault found is the
failure: the file first, then the variables in the order of the fields, then the validation. Faults
of the weights are recorded as a warning, faults of the file are not.

* `Source`, `Loaded` — the weights with where each of them came from.
* `loadWeights` — the weights of an environment.
-/

namespace CaliforniaPoker

/-- Where the value of a field came from. -/
inductive Source where
  | default
  | file
  | env
  deriving DecidableEq

/-- The name of a source. -/
def Source.name : Source → String
  | default => "default"
  | file => "file"
  | env => "env"

/-- Why no weights can be loaded. -/
inductive LoadError where
  /-- The weights file cannot be read as a text. -/
  | unreadableFile
  /-- The text of the weights file is not that of one. -/
  | malformedFile
  /-- A weight, or the text given for one, is refused. -/
  | invalid (fault : WeightFault)
  deriving DecidableEq

/-- The wording of a load error. -/
def LoadError.message : LoadError → String
  | unreadableFile => "cannot read weights file"
  | malformedFile => "cannot parse weights file"
  | invalid fault => "invalid weights: " ++ fault.message

/-- Weights with where each field came from. -/
structure Loaded where
  /-- The weights. -/
  weights : Weights
  /-- The source of each of them. -/
  sources : Settings Source Source

/-- The name of the variable that names the weights file. -/
def fileVariableName : String := "CALPOKER_AI_WEIGHTS"

/-- The weight that the text of a variable stands for. -/
def weightOfText? (text : String) : Option Int32 :=
  (Numeral.signed? (trim text.toList)).bind Numeral.int32?

/-- The parts of a text between commas. -/
def splitAtCommas : List Char → List (List Char)
  | [] => [[]]
  | c :: cs =>
    match splitAtCommas cs with
    | [] => []
    | part :: rest => if c = ',' then [] :: part :: rest else (c :: part) :: rest

/-- The position weights that the text of a variable stands for. -/
def positionsOfText? (text : String) : Option PositionWeights :=
  ((splitAtCommas text.toList).mapM fun part => weightOfText? (String.ofList part)).bind
    PositionWeights.ofList?

/-- The fields of the weights file that an environment names, or of none. -/
def fileWeights (env : Environment) : Except LoadError FileWeights :=
  match env.setting? fileVariableName with
  | none => .ok .empty
  | some path =>
    match env.file path with
    | some (.text content) =>
      match readWeightsFile? content with
      | some fields => .ok fields
      | none => .error .malformedFile
    | _ => .error .unreadableFile

/-- The first variable of an environment, in the order of the fields, whose text does not stand for
what its field holds. -/
def overrideFault? (env : Environment) : Option WeightFault :=
  let bonusFault (b : Bonus) : Option WeightFault :=
    match env.setting? b.overrideName with
    | some raw => if (weightOfText? raw).isSome then none else some (.notInteger b raw)
    | none => none
  let positionsFault : Option WeightFault :=
    match env.setting? positionsOverrideName with
    | some raw => if (positionsOfText? raw).isSome then none else some (.notFourIntegers raw)
    | none => none
  (Bonus.all.findSome? bonusFault).or positionsFault

/-- A field's value and its source: the variable's, else the file's, else the default. -/
def layer {α : Type} (override file : Option α) (default : α) : α × Source :=
  match override, file with
  | some value, _ => (value, .env)
  | none, some value => (value, .file)
  | none, none => (default, .default)

/-- The nine fields with their sources, given the fields of the file. -/
def resolve (env : Environment) (file : FileWeights) : Loaded :=
  let bonus (b : Bonus) : Int32 × Source :=
    layer ((env.setting? b.overrideName).bind weightOfText?) (file.bonus b)
      (defaultWeights.bonus b)
  let positions : PositionWeights × Source :=
    layer ((env.setting? positionsOverrideName).bind positionsOfText?) file.positions
      defaultWeights.positions
  { weights := { bonus := fun b => (bonus b).1, positions := positions.1 }
    sources := { bonus := fun b => (bonus b).2, positions := positions.2 } }

/-- Records a fault of the weights and fails with it. -/
def refuse {α : Type} (fault : WeightFault) : Recorded LoadError α := do
  Recorded.record (.refused fault)
  .fail (.invalid fault)

/-- The weights of an environment. -/
def loadWeights (env : Environment) : Recorded LoadError Loaded := do
  let file ← .ofExcept (fileWeights env)
  match overrideFault? env with
  | some fault => refuse fault
  | none =>
    let loaded := resolve env file
    match validate loaded.weights with
    | .error fault => refuse fault
    | .ok () => return loaded

end CaliforniaPoker
