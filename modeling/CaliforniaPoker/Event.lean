import CaliforniaPoker.Hand.Description
import CaliforniaPoker.Showdown
import CaliforniaPoker.Weights.Validation

/-!
# Events

Searches, rounds and the reading of weights record what they decide, so that a decision can be
followed afterwards. An event has a level and named texts, one of which is its message.

* `Event` — what can be recorded.
* `Recorded` — a computation that may fail, with the events it recorded on the way.
-/

namespace CaliforniaPoker

/-- How much an event matters. -/
inductive Level where
  | trace
  | debug
  | warn
  deriving DecidableEq

/-- The name of a level. -/
def Level.name : Level → String
  | trace => "TRACE"
  | debug => "DEBUG"
  | warn => "WARN"

/-- What a computation records. -/
inductive Event where
  /-- A candidate of a selection got its value. -/
  | candidate (indices : List Nat) (category : Category)
  /-- A selection chose its hand. -/
  | selected (indices : List Nat) (hand : HandRank)
  /-- The cards that a discard set leaves got their score. -/
  | scored (discard : List Nat) (score : Int)
  /-- An opponent chose its discards. -/
  | discarded (discard keep : List Nat) (score : Int)
  /-- A round came to its showdown. -/
  | finished (first second : String) (firstHand secondHand : HandRank) (winner : Winner)
  /-- A weight, or the text given for it, was refused. -/
  | refused (fault : WeightFault)

namespace Event

/-- The level of an event. -/
def level : Event → Level
  | candidate .. => .trace
  | selected .. => .debug
  | scored .. => .trace
  | discarded .. => .debug
  | finished .. => .debug
  | refused .. => .warn

/-- The text of a list of positions. -/
def indicesText (indices : List Nat) : String := bracketed (indices.map Nat.repr)

/-- The named texts of an event. -/
def fields : Event → List (String × String)
  | candidate indices category =>
    [("message", "evaluated candidate"), ("indices", indicesText indices),
      ("category", category.name)]
  | selected indices hand =>
    [("message", "selected best hand"), ("indices", indicesText indices),
      ("hand", hand.describe)]
  | scored discard score =>
    [("message", "scored keep set"), ("discard", indicesText discard), ("score", score.repr)]
  | discarded discard keep score =>
    [("message", "chose discards"), ("discard", indicesText discard),
      ("keep", indicesText keep), ("score", score.repr)]
  | finished first second firstHand secondHand winner =>
    [("message", "round finished"), ("first", quoted first), ("second", quoted second),
      ("first_hand", firstHand.describe), ("second_hand", secondHand.describe),
      ("winner", winner.name)]
  | refused (.notInteger bonus raw) =>
    [("message", "rejected weight override"), ("var", quoted bonus.overrideName), ("value", raw)]
  | refused (.notFourIntegers raw) =>
    [("message", "rejected " ++ positionsOverrideName), ("value", raw)]
  | refused (.negativeBonus bonus value) =>
    [("message", "rejected negative bonus"), ("field", quoted bonus.field),
      ("value", value.toInt.repr)]
  | refused (.unorderedPositions positions) =>
    [("message", "rejected position weights"), ("weights", positions.text)]

end Event

/-- A computation that may fail, with the events it recorded on the way. -/
structure Recorded (ε α : Type) where
  /-- The result or the failure. -/
  outcome : Except ε α
  /-- The events in the order in which they were recorded. -/
  events : List Event

namespace Recorded

variable {ε ε' α β : Type}

/-- A computation that records nothing. -/
def ofExcept (outcome : Except ε α) : Recorded ε α := { outcome, events := [] }

/-- A computation that only fails. -/
def fail (e : ε) : Recorded ε α := ofExcept (.error e)

/-- A computation that only records an event. -/
def record (event : Event) : Recorded ε Unit := { outcome := .ok (), events := [event] }

/-- The same computation with its failures renamed. -/
def mapError (f : ε → ε') (r : Recorded ε α) : Recorded ε' α :=
  { outcome := r.outcome.mapError f, events := r.events }

/-- One computation after another; nothing comes after a failure. -/
def andThen (r : Recorded ε α) (f : α → Recorded ε β) : Recorded ε β :=
  match r.outcome with
  | .error e => { outcome := .error e, events := r.events }
  | .ok a =>
    let next := f a
    { outcome := next.outcome, events := r.events ++ next.events }

instance : Monad (Recorded ε) where
  pure a := ofExcept (.ok a)
  bind := andThen

instance : LawfulMonad (Recorded ε) :=
  LawfulMonad.mk' (Recorded ε)
    (by rintro α ⟨_ | _, _⟩ <;> simp [Functor.map, andThen, ofExcept])
    (by intro α β a f; simp [bind, pure, andThen, ofExcept])
    (by
      rintro α β γ ⟨_ | a, _⟩ f g
      · simp [bind, andThen]
      · simp only [bind, andThen]
        cases (f a).outcome <;> simp)

end Recorded

end CaliforniaPoker
