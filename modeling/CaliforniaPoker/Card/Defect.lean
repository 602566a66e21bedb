import CaliforniaPoker.Text.Quoted

/-!
# Why a card is refused

`CardDefect` lists the ways in which something given for a card fails to be one; `message` words
them.
-/

namespace CaliforniaPoker

/-- Why something given for a card is not one. -/
inductive CardDefect where
  /-- A rank value outside 2 to 14. -/
  | rankOutOfRange (value : Nat)
  /-- A suit value outside 1 to 4. -/
  | suitOutOfRange (value : Nat)
  /-- A deck id outside 0 to 51. -/
  | idOutOfRange (id : Nat)
  /-- A pair of the peer's zero-based indices that names no card. -/
  | peerIndexOutOfRange (rank suit : UInt8)
  /-- A text that is not written like a card. -/
  | unreadable (text : String)
  /-- A text that is not the peer's form of a list of pairs. -/
  | malformedPool
  deriving DecidableEq

/-- The wording of a card defect. -/
def CardDefect.message : CardDefect → String
  | rankOutOfRange value => s!"rank {value} outside 2..=14"
  | suitOutOfRange value => s!"suit {value} outside 1..=4"
  | idOutOfRange id => s!"card id {id} outside 0..52"
  | peerIndexOutOfRange rank suit =>
    "wire index " ++ bracketed [rank.toNat.repr, suit.toNat.repr] ++ " outside [0..13, 0..4]"
  | unreadable text => "cannot parse " ++ quoted text
  | malformedPool => "cannot parse the pool"

end CaliforniaPoker
