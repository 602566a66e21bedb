import CaliforniaPoker.Hand.HandRank

/-!
# Showdown

Two hands are compared and the pot goes to the better one, or is split.
-/

namespace CaliforniaPoker

/-- Who takes the pot. -/
inductive Winner where
  | first
  | second
  | split
  deriving DecidableEq

namespace Winner

/-- The name of an outcome. -/
def name : Winner → String
  | first => "First"
  | second => "Second"
  | split => "Split"

/-- One when the first player wins, minus one when the second does, zero on a split. -/
def direction : Winner → Int
  | first => 1
  | second => -1
  | split => 0

/-- The outcome seen from the other seat. -/
def swap : Winner → Winner
  | first => second
  | second => first
  | split => split

end Winner

/-- Who takes the pot when these hands are shown. -/
def showdown (first second : HandRank) : Winner :=
  match compare first second with
  | .gt => .first
  | .lt => .second
  | .eq => .split

end CaliforniaPoker
