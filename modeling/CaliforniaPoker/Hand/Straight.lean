import CaliforniaPoker.Card.Rank

/-!
# Straights

A straight is five consecutive ranks, or the wheel: ace, two, three, four and five, which counts as
a straight to the five. Wilds fill the ranks that are missing, so some ranks make a straight when
they differ from each other and all lie in one.

* `straights` — the ten straights, the best first.
* `straightHigh?` — the high card of the best straight that given ranks can make.
-/

namespace CaliforniaPoker

/-- The straights with their high cards, the highest first and the wheel last. -/
def straights : List (Rank × List Rank) :=
  ((List.range 9).filterMap fun i =>
    match Rank.descending.drop i with
    | high :: rest => some (high, high :: rest.take 4)
    | [] => none) ++ [(.five, [.five, .four, .three, .two, .ace])]

example : straights.map Prod.fst =
    [.ace, .king, .queen, .jack, .ten, .nine, .eight, .seven, .six, .five] := by decide

/-- The high card of the best straight that has all the given ranks, each once. -/
def straightHigh? (ranks : List Rank) : Option Rank :=
  if ranks.Nodup then
    (straights.find? fun straight => ranks.all fun r => straight.2.contains r).map Prod.fst
  else none

end CaliforniaPoker
