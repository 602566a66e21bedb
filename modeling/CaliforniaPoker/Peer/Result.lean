import CaliforniaPoker.Json.HandForm

/-!
# Results as the peer receives them

The peer is told the code of a hand's category, the zero-based indices of its tiebreakers and the
chosen positions of the pool. Categories are numbered in one of two ways.

* `CategoryNumbering` — with the royal flush apart, or counted as a straight flush.
* `PeerResult` — a result; positions that are not given are left out of its JSON.
-/

namespace CaliforniaPoker

/-- How categories are numbered. -/
inductive CategoryNumbering where
  /-- Ten categories, the royal flush apart. -/
  | ten
  /-- Nine categories, a royal flush being a straight flush. -/
  | legacy
  deriving DecidableEq

namespace CategoryNumbering

/-- The numbering that is used when none is asked for. -/
def standard : CategoryNumbering := ten

/-- The name of a numbering. -/
def name : CategoryNumbering → String
  | ten => "ten"
  | legacy => "legacy"

/-- The code of a category. -/
def code : CategoryNumbering → Category → Nat
  | ten => Category.code
  | legacy => Category.legacyCode

end CategoryNumbering

/-- A result for the peer. -/
structure PeerResult where
  /-- The code of the category. -/
  category : UInt8
  /-- The zero-based indices of the ranks that decide, most significant first. -/
  tiebreakers : List UInt8
  /-- The chosen positions of the pool, ascending. -/
  indices : List Nat
  deriving DecidableEq

namespace PeerResult

/-- The zero-based index of a rank. -/
def rankIndex (r : Rank) : UInt8 := UInt8.ofNat (r.value - 2)

/-- The result for a hand's value. Where royal flushes are straight flushes they need the high card
of the straight. -/
def ofRank (h : HandRank) (numbering : CategoryNumbering) : PeerResult where
  category := UInt8.ofNat (numbering.code h.category)
  tiebreakers :=
    h.tiebreakers.map rankIndex ++
      if numbering = .legacy ∧ h.category = .royalFlush then [rankIndex .ace] else []
  indices := []

/-- The result for a chosen hand. -/
def ofBest (b : BestHand) (numbering : CategoryNumbering) : PeerResult :=
  { ofRank b.rank numbering with indices := b.indices }

end PeerResult

instance : JsonForm CategoryNumbering where
  toJson n := .ofText n.name
  ofJson? := Json.unitVariant? [.ten, .legacy] CategoryNumbering.name

instance : JsonForm PeerResult where
  toJson r :=
    .record ([("category", toJson r.category), ("tiebreakers", toJson r.tiebreakers)] ++
      if r.indices.isEmpty then [] else [("indices", toJson r.indices)])
  ofJson? j :=
    match Json.record? ["category", "tiebreakers", "indices"] j with
    | some (some category :: some tiebreakers :: more) => do
      let category ← ofJson? category
      let tiebreakers ← ofJson? tiebreakers
      let indices ←
        match more with
        | [] | [none] => some []
        | [some indices] => ofJson? indices
        | _ => none
      return { category, tiebreakers, indices }
    | _ => none

end CaliforniaPoker
