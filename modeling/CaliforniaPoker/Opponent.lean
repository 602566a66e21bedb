import CaliforniaPoker.DiscardSearch
import CaliforniaPoker.Selection
import CaliforniaPoker.Weights.Loading

/-!
# Players and opponents

A player makes two decisions in a round: which four of its eight cards to hand over, and which five
of its final eight to show. A round knows no more of its players than these decisions, either of
which may be refused, and the names under which they play. The opponent is a player that scores the
cards it would keep with its weights, and always gives the same answer.

* `Player` — a player.
* `Opponent` — an opponent with its weights.
* `Opponent.ofKind` — an opponent by the name of its kind.
* `Opponent.player` — the player that an opponent is.
-/

namespace CaliforniaPoker

/-- A player: a name and two decisions. -/
structure Player where
  /-- The name under which the player plays. -/
  name : String
  /-- The four cards of its pool that the player hands over. -/
  chooseDiscards : List Card → Recorded GameError DiscardChoice
  /-- The five cards of its final pool that the player shows: the best hand, unless the player has a
  way of its own. -/
  chooseHand : List Card → Recorded GameError BestHand := fun pool => selectBestCards pool handSize

/-- An opponent that scores the cards it would keep. -/
structure Opponent where
  /-- The weights of its score. -/
  weights : Weights

/-- Why no opponent can be made, or why it cannot play. -/
inductive OpponentError where
  /-- There is no kind of opponent with this name. -/
  | unknownKind (kind : String)
  /-- The game refuses an operation. -/
  | game (error : GameError)
  /-- The opponent's weights cannot be loaded. -/
  | load (error : LoadError)

/-- The wording of an opponent error. -/
def OpponentError.message : OpponentError → String
  | unknownKind kind => "unknown opponent type: " ++ kind
  | game error => error.message
  | load error => error.message

namespace Opponent

/-- The opponent with the default weights. -/
def standard : Opponent := { weights := defaultWeights }

/-- The name under which an opponent plays. -/
def name (_ : Opponent) : String := "HeuristicOpponent"

/-- The opponent of a kind: with the default weights, or with those of the environment. -/
def ofKind (env : Environment) (kind : String) : Recorded OpponentError Opponent :=
  if kind = "heuristic" then return standard
  else if kind = "tuned" then do
    let loaded ← (loadWeights env).mapError .load
    return { weights := loaded.weights }
  else .fail (.unknownKind kind)

/-- The four cards that the opponent hands over. -/
def chooseDiscards (o : Opponent) (pool : List Card) : Recorded GameError DiscardChoice :=
  bestDiscard o.weights pool

/-- The opponent as a player. It has no way of its own to choose a hand. -/
def player (o : Opponent) : Player where
  name := o.name
  chooseDiscards := o.chooseDiscards

/-- The five cards that the opponent shows. -/
def chooseHand (o : Opponent) (pool : List Card) : Recorded GameError BestHand :=
  o.player.chooseHand pool

instance : Coe Opponent Player := ⟨player⟩

@[simp] theorem player_chooseDiscards (o : Opponent) (pool : List Card) :
    o.player.chooseDiscards pool = o.chooseDiscards pool := rfl

@[simp] theorem player_chooseHand (o : Opponent) (pool : List Card) :
    o.player.chooseHand pool = o.chooseHand pool := rfl

end Opponent

end CaliforniaPoker
