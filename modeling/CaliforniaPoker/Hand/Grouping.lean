import CaliforniaPoker.Card.Rank

/-!
# Groups of equal rank

A full house is a group of three and a group of two, each of one rank. A *pattern* lists the sizes
of the groups; an assignment gives every group a rank of its own. The naturals of a rank must all
lie in its group, and wilds top the group up to its size; all naturals and all wilds have to be
used. Groups of equal size that follow each other are taken in descending order of rank.

* `GroupSearch` — how far a search has come.
* `GroupSearch.run` — tries the ranks for each group from the highest down.
* `bestGrouping?` — the assignment that is found first.
-/

namespace CaliforniaPoker

/-- How far the assignment of ranks to groups has come. -/
structure GroupSearch where
  /-- The naturals whose rank has no group yet. -/
  uncovered : Nat
  /-- The wilds that are not used yet. -/
  wilds : Nat
  /-- The size and the rank of the group before. -/
  previous : Option (Nat × Rank)
  /-- The ranks that have a group. -/
  taken : List Rank

namespace GroupSearch

/-- Whether the next group, of a given size, may have a given rank. -/
def admits (held : Rank → Nat) (s : GroupSearch) (size : Nat) (rank : Rank) : Bool :=
  (s.previous.all fun (before, last) => before != size || rank < last) &&
    !s.taken.contains rank && held rank ≤ size && size - held rank ≤ s.wilds

/-- The search after the next group, of a given size, got a given rank. -/
def assign (held : Rank → Nat) (s : GroupSearch) (size : Nat) (rank : Rank) : GroupSearch where
  uncovered := s.uncovered - held rank
  wilds := s.wilds - (size - held rank)
  previous := some (size, rank)
  taken := rank :: s.taken

/-- The first assignment for the groups that are left, the ranks being tried from the highest. -/
def run (held : Rank → Nat) : List Nat → GroupSearch → Option (List Rank)
  | [], s => if s.uncovered = 0 ∧ s.wilds = 0 then some [] else none
  | size :: rest, s =>
    Rank.descending.findSome? fun rank =>
      if s.admits held size rank then (run held rest (s.assign held size rank)).map (rank :: ·)
      else none

end GroupSearch

/-- The first assignment of ranks to the groups of a pattern. -/
def bestGrouping? (ranks : List Rank) (wilds : Nat) (pattern : List Nat) : Option (List Rank) :=
  GroupSearch.run (fun rank => ranks.count rank) pattern
    { uncovered := ranks.length, wilds, previous := none, taken := [] }

end CaliforniaPoker
