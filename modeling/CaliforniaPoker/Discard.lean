import CaliforniaPoker.Bitfield
import CaliforniaPoker.Card.Basic
import CaliforniaPoker.Combinations
import CaliforniaPoker.Text.Quoted

/-!
# Discard sets

A player is dealt eight cards and hands four of them over. A discard set is the positions of those
four; the other four positions are the keep set. It can be given by its positions, by its keep set
or by a byte.

* `DiscardChoice` — four ascending positions below eight.
* `DiscardChoice.ofIndices`, `DiscardChoice.ofKeep`, `DiscardChoice.ofBitfield` — the three ways in.
* `discardChoices` — all seventy, in ascending order.
-/

namespace CaliforniaPoker

/-- The number of cards that a player is dealt. -/
def poolSize : Nat := 8

/-- The number of cards that a player hands over. -/
def discardSize : Nat := 4

/-- Four positions of a pool, ascending. -/
structure DiscardChoice where
  /-- The positions of the cards that are handed over. -/
  indices : List Nat
  /-- There are four of them. -/
  length_eq : indices.length = discardSize
  /-- They are in ascending order. -/
  ascending : indices.Pairwise (· < ·)
  /-- They are positions of the pool. -/
  below : ∀ i ∈ indices, i < poolSize
  deriving DecidableEq

/-- Why something given for a discard set is none. -/
inductive DiscardDefect where
  /-- The number of positions is wrong. -/
  | wrongCount (actual : Nat)
  /-- A position lies outside the pool. -/
  | outsidePool (index : Nat)
  /-- A position is given twice. -/
  | repeated (indices : List Nat)
  /-- The positions to keep are not four of the pool. -/
  | wrongKeepSet (keep : List Nat)
  deriving DecidableEq

/-- The wording of a discard defect. -/
def DiscardDefect.message : DiscardDefect → String
  | wrongCount actual => s!"expected {discardSize} indices, got {actual}"
  | outsidePool index => s!"index {index} outside a pool of {poolSize}"
  | repeated indices => "repeated index in " ++ bracketed (indices.map Nat.repr)
  | wrongKeepSet keep =>
    "keep set " ++ bracketed (keep.map Nat.repr) ++
      s!" is not {poolSize - discardSize} indices below {poolSize}"

namespace DiscardChoice

/-- The discard set of the first four cards. -/
def lowest : DiscardChoice where
  indices := [0, 1, 2, 3]
  length_eq := rfl
  ascending := by decide
  below := by decide

/-- The discard set with given positions, in whatever order they come. The number of positions is
looked at first, then whether they lie in the pool, then whether they differ. -/
def ofIndices (indices : List Nat) : Except DiscardDefect DiscardChoice :=
  if indices.length ≠ discardSize then .error (.wrongCount indices.length)
  else
    let sorted := indices.mergeSort
    match sorted.find? fun i => poolSize ≤ i with
    | some i => .error (.outsidePool i)
    | none =>
      if h : sorted.length = discardSize ∧ sorted.Pairwise (· < ·) ∧ ∀ i ∈ sorted, i < poolSize then
        .ok { indices := sorted, length_eq := h.1, ascending := h.2.1, below := h.2.2 }
      else .error (.repeated sorted)

/-- The discard set that keeps exactly the given positions. -/
def ofKeep (keep : List Nat) : Except DiscardDefect DiscardChoice :=
  if keep.length ≠ poolSize - discardSize || keep.any fun i => poolSize ≤ i then
    .error (.wrongKeepSet keep)
  else ofIndices ((List.range poolSize).filter fun i => i ∉ keep)

/-- The discard set whose positions are the set bits of a byte. -/
def ofBitfield (bits : UInt8) : Except DiscardDefect DiscardChoice :=
  ofIndices ((List.range poolSize).filter fun i => bits.toNat.testBit i)

/-- The byte whose set bits are the positions. -/
def bitfield (d : DiscardChoice) : UInt8 := UInt8.ofNat (bitfieldOf d.indices)

/-- Whether a position is discarded. -/
def contains (d : DiscardChoice) (index : Nat) : Bool := d.indices.contains index

/-- The positions that are kept, ascending. -/
def keepIndices (d : DiscardChoice) : List Nat :=
  (List.range poolSize).filter fun i => !d.contains i

/-- The cards of a pool that are kept, in the order of the pool. -/
def kept (d : DiscardChoice) (pool : List Card) : List Card :=
  (pool.zipIdx.filter fun entry => !d.contains entry.2).map Prod.fst

/-- The cards of a pool that are discarded, in the order of the pool. -/
def discarded (d : DiscardChoice) (pool : List Card) : List Card :=
  (pool.zipIdx.filter fun entry => d.contains entry.2).map Prod.fst

end DiscardChoice

/-- All discard sets, in ascending order of their positions. -/
def discardChoices : List DiscardChoice :=
  (choose discardSize (List.range poolSize)).filterMap fun indices =>
    (DiscardChoice.ofIndices indices).toOption

end CaliforniaPoker
