import CaliforniaPoker.Proofs.Hand.GroupSearch
import Mathlib.Data.Nat.PSub

/-!
# The counters of the search for groups

The search for groups counts down the naturals whose rank has no group yet, and the wilds. Only the
wilds are compared with what is taken from them before it is taken. This file shows that the
naturals need no such test: the search with checked subtractions, which comes to nothing as soon as
a counter would go below zero, always comes to what the search comes to.

## Main definitions

* `GroupSearch.assign?`, `GroupSearch.run?`, `checkedGrouping?`: the search with checked
  subtractions.
* `GroupSearch.IsCounted`: every natural is uncovered or of a rank that is taken.

## Main results

* `GroupSearch.IsCounted.assign`: a group more keeps the count.
* `GroupSearch.IsCounted.run?_eq`, `checkedGrouping?_eq`: no subtraction goes below zero.
-/

namespace CaliforniaPoker

namespace GroupSearch

/-! ### Checked subtractions -/

/-- The search after the next group, of a given size, got a given rank; nothing if one of the
differences is below zero. -/
def assign? (held : Rank → Nat) (s : GroupSearch) (size : Nat) (rank : Rank) :
    Option GroupSearch := do
  let uncovered ← s.uncovered.psub (held rank)
  let lacking ← size.psub (held rank)
  let wilds ← s.wilds.psub lacking
  return { uncovered, wilds, previous := some (size, rank), taken := rank :: s.taken }

/-- The first assignment for the groups that are left; nothing, not even that there is none, if a
difference is below zero on the way. -/
def run? (held : Rank → Nat) : List Nat → GroupSearch → Option (Option (List Rank))
  | [], s => some (if s.uncovered = 0 ∧ s.wilds = 0 then some [] else none)
  | size :: rest, s =>
    Rank.descending.findSomeM? fun rank =>
      if s.admits held size rank then do
        let next ← s.assign? held size rank
        let found ← run? held rest next
        return found.map (rank :: ·)
      else some none

variable {ranks : List Rank} {s : GroupSearch} {size : Nat} {r : Rank}

/-- The checked step is the step where nothing is taken from what is too small. -/
theorem assign?_eq {held : Rank → Nat} (hcover : held r ≤ s.uncovered) (hroom : held r ≤ size)
    (hwilds : size - held r ≤ s.wilds) : s.assign? held size r = some (s.assign held size r) := by
  simp [assign?, assign, Nat.psub_eq_sub, hcover, hroom, hwilds]

/-- A search whose attempts all come to something comes to what they come to. -/
private theorem findSomeM?_eq_some {α β : Type} {f : α → Option (Option β)} {g : α → Option β}
    (h : ∀ x, f x = some (g x)) (xs : List α) : xs.findSomeM? f = some (xs.findSome? g) := by
  obtain rfl : f = fun x => some (g x) := funext h
  exact List.findSomeM?_pure

/-! ### What the counter of naturals counts -/

/-- No rank is taken twice, and every natural is uncovered or of a rank that is taken. -/
structure IsCounted (ranks : List Rank) (s : GroupSearch) : Prop where
  nodup : s.taken.Nodup
  sum_eq : s.uncovered + (s.taken.map ranks.count).sum = ranks.length

/-- Before any rank is taken all naturals are uncovered. -/
theorem isCounted_start (ranks : List Rank) (wilds : Nat) :
    IsCounted ranks { uncovered := ranks.length, wilds, previous := none, taken := [] } where
  nodup := List.nodup_nil
  sum_eq := Nat.add_zero _

namespace IsCounted

/-- The naturals of a rank that is not taken are uncovered. -/
theorem count_le (h : IsCounted ranks s) (hr : r ∉ s.taken) : ranks.count r ≤ s.uncovered := by
  have htaken : ((r :: s.taken).map ranks.count).sum ≤ ranks.length := by
    rw [sum_map_count (List.nodup_cons.mpr ⟨hr, h.nodup⟩)]
    exact List.countP_le_length
  have hsum := h.sum_eq
  rw [List.map_cons, List.sum_cons] at htaken
  omega

/-- A rank that is taken accounts for its naturals from then on. -/
theorem assign (h : IsCounted ranks s) (hr : r ∉ s.taken) :
    IsCounted ranks (s.assign (fun r => ranks.count r) size r) where
  nodup := List.nodup_cons.mpr ⟨hr, h.nodup⟩
  sum_eq := by
    have hle := h.count_le hr
    have hsum := h.sum_eq
    simp only [GroupSearch.assign, List.map_cons, List.sum_cons]
    omega

/-- As long as the count is right, no subtraction goes below zero. -/
theorem run?_eq {sizes : List Nat} (h : IsCounted ranks s) :
    run? (fun r => ranks.count r) sizes s = some (run (fun r => ranks.count r) sizes s) := by
  induction sizes generalizing s with
  | nil => rfl
  | cons size sizes ih =>
    rw [run?, run]
    refine findSomeM?_eq_some (fun rank => ?_) _
    split_ifs with hadmits
    · obtain ⟨-, htaken, hroom, hwilds⟩ := admits_iff.mp hadmits
      rw [assign?_eq (h.count_le htaken) hroom hwilds, Option.bind_eq_bind, Option.bind_some,
        ih (h.assign htaken)]
      rfl
    · rfl

end IsCounted

end GroupSearch

/-- The first assignment of ranks to the groups of a pattern, with checked subtractions. -/
def checkedGrouping? (ranks : List Rank) (wilds : Nat) (pattern : List Nat) :
    Option (Option (List Rank)) :=
  GroupSearch.run? (fun rank => ranks.count rank) pattern
    { uncovered := ranks.length, wilds, previous := none, taken := [] }

/-- No subtraction of the search for groups goes below zero. -/
theorem checkedGrouping?_eq (ranks : List Rank) (wilds : Nat) (pattern : List Nat) :
    checkedGrouping? ranks wilds pattern = some (bestGrouping? ranks wilds pattern) :=
  (GroupSearch.isCounted_start ranks wilds).run?_eq

end CaliforniaPoker
