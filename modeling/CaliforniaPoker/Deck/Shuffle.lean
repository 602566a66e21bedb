import CaliforniaPoker.Deck.Keystream

/-!
# Shuffles

A list is shuffled by exchanging each of its entries, from the first to the last, with an entry at
a random position up to its own. Several positions are taken from one draw: a number below the
product `(i + 1) (i + 2) ⋯ (i + n)` holds a position for each of `n` entries, in mixed radix.

* `PositionDraw` — a stream of random positions.
* `shuffle` — the shuffled list and what is left of the stream.
* `shuffle_perm` — a shuffle is a rearrangement.
-/

namespace CaliforniaPoker

/-- The greatest product of consecutive factors from `product` and `factor` on that is below
`2 ^ 32`, and the first factor left out; at most `steps` factors are added. -/
def extendProduct : Nat → Nat → Nat → Nat × Nat
  | 0, product, factor => (product, factor)
  | steps + 1, product, factor =>
    if product * factor < UInt32.size then extendProduct steps (product * factor) (factor + 1)
    else (product, factor)

/-- A stream of random positions: what is left of the last draw, for how many entries it still
serves, and the words for the draws to come. -/
structure PositionDraw where
  /-- What is left of the last draw. -/
  chunk : Nat
  /-- The number of positions that it still holds. -/
  count : Nat
  /-- The words for the draws to come. -/
  stream : Keystream

namespace PositionDraw

/-- The positions that a stream of words gives. The first entry has no choice, so its position
needs no draw. -/
def ofStream (stream : Keystream) : PositionDraw := { chunk := 0, count := 1, stream }

/-- The draw with at least one position in it, for the entry at position `i`. -/
def refill (d : PositionDraw) (i : Nat) : PositionDraw :=
  if d.count = 0 then
    let (bound, factor) := extendProduct 32 (i + 1) (i + 2)
    let (chunk, stream) := d.stream.below bound
    { chunk, count := factor - (i + 1), stream }
  else d

/-- A position up to `i` for the entry at position `i`. The last position of a draw is all that is
left of it. -/
def next (d : PositionDraw) (i : Nat) : Nat × PositionDraw :=
  let d := d.refill i
  if d.count = 1 then (d.chunk, { d with count := 0 })
  else (d.chunk % (i + 1), { d with chunk := d.chunk / (i + 1), count := d.count - 1 })

end PositionDraw

/-- Exchanges the entry at position `i` with one at a random position. -/
def shuffleStep {α : Type} (state : Array α × PositionDraw) (i : Nat) : Array α × PositionDraw :=
  let (j, draw) := state.2.next i
  (state.1.swapIfInBounds i j, draw)

/-- A shuffled list, and the stream after the words that the shuffle took. -/
def shuffle {α : Type} (entries : List α) (stream : Keystream) : List α × Keystream :=
  let start := (entries.toArray, PositionDraw.ofStream stream)
  let (shuffled, draw) := (List.range entries.length).foldl shuffleStep start
  (shuffled.toList, draw.stream)

private theorem swapIfInBounds_perm {α : Type} (xs : Array α) (i j : Nat) :
    (xs.swapIfInBounds i j).Perm xs := by
  unfold Array.swapIfInBounds
  split
  · split
    · exact Array.swap_perm _ _
    · exact Array.Perm.refl _
  · exact Array.Perm.refl _

private theorem foldl_shuffleStep_perm {α : Type} (positions : List Nat)
    (state : Array α × PositionDraw) :
    (positions.foldl shuffleStep state).1.Perm state.1 := by
  induction positions generalizing state with
  | nil => exact Array.Perm.refl _
  | cons i rest ih => exact (ih _).trans (swapIfInBounds_perm _ _ _)

/-- A shuffle is a rearrangement. -/
theorem shuffle_perm {α : Type} (entries : List α) (stream : Keystream) :
    (shuffle entries stream).1.Perm entries :=
  (foldl_shuffleStep_perm _ _).toList

end CaliforniaPoker
