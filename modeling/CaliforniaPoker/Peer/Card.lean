import CaliforniaPoker.Card.HandCard
import CaliforniaPoker.Json.Form

/-!
# Cards as the peer sends them

The peer writes a card as a pair of zero-based indices: ranks run from two at 0 to ace at 12, suits
from spades at 0 to clubs at 3. Pools come as JSON arrays of such pairs.

* `PeerCard` — a pair of indices.
* `Card.toPeer`, `PeerCard.toCard` — between cards and pairs.
* `readPeerPool` — a pool from its JSON text. All of the text is read before any pair is looked at.
-/

namespace CaliforniaPoker

/-- A card as a pair of indices. -/
structure PeerCard where
  /-- The index of the rank. -/
  rank : UInt8
  /-- The index of the suit. -/
  suit : UInt8
  deriving DecidableEq

/-- The pair of a card. -/
def Card.toPeer (c : Card) : PeerCard where
  rank := UInt8.ofNat (c.rank.value - 2)
  suit := UInt8.ofNat (c.suit.value - 1)

/-- The card of a pair. -/
def PeerCard.toCard (p : PeerCard) : Except CardDefect Card :=
  if 12 < p.rank ∨ 3 < p.suit then .error (.peerIndexOutOfRange p.rank p.suit)
  else Card.ofValues (p.rank.toNat + 2) (p.suit.toNat + 1)

/-- The pair of an entry that is natural; wilds have none. -/
def HandCard.toPeer? (e : HandCard) : Option PeerCard := e.card?.map Card.toPeer

/-- The pairs of the cards of a pool. -/
def encodePool (pool : List Card) : List PeerCard := pool.map Card.toPeer

/-- The cards of the pairs of a pool, or the defect of the first pair that names none. -/
def decodePool (pairs : List PeerCard) : Except CardDefect (List Card) :=
  pairs.mapM PeerCard.toCard

instance : JsonForm PeerCard where
  toJson p := .array [toJson p.rank, toJson p.suit]
  ofJson?
    | .array [rank, suit] => do
      let rank ← ofJson? rank
      let suit ← ofJson? suit
      return { rank, suit }
    | _ => none

/-- The pool of a JSON text. -/
def readPeerPool (text : String) : Except CardDefect (List Card) :=
  match ofJsonText? text with
  | some pairs => decodePool pairs
  | none => .error .malformedPool

end CaliforniaPoker
