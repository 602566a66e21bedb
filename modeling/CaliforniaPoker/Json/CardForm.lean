import CaliforniaPoker.Card.HandCard
import CaliforniaPoker.Json.Form

/-!
# JSON forms of cards

Suits and ranks are written as their names, a card as a record of both, and an entry of a hand as
the name of a wild or as an object that holds the natural card.
-/

namespace CaliforniaPoker

instance : JsonForm Suit where
  toJson s := .ofText s.name
  ofJson? := Json.unitVariant? Suit.all Suit.name

instance : JsonForm Rank where
  toJson r := .ofText r.name
  ofJson? := Json.unitVariant? Rank.all Rank.name

instance : JsonForm Card where
  toJson c := .record [("suit", toJson c.suit), ("rank", toJson c.rank)]
  ofJson? j :=
    match Json.record? ["suit", "rank"] j with
    | some [some suit, some rank] => do
      let suit ← ofJson? suit
      let rank ← ofJson? rank
      return { suit, rank }
    | _ => none

instance : JsonForm HandCard where
  toJson
    | .natural card => .record [("Natural", toJson card)]
    | .wild => .ofText "Wild"
  ofJson?
    | .object [(some "Natural", card)] => (ofJson? card).map HandCard.natural
    | j => Json.unitVariant? [HandCard.wild] (fun _ => "Wild") j

end CaliforniaPoker
