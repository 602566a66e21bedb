import CaliforniaPoker.Json.CardForm
import CaliforniaPoker.Selection

/-!
# JSON forms of hands and choices

Values of hands, chosen hands and winners. A discard set is the list of its positions, and a list
that is no discard set is refused. The representative of a value may be missing.
-/

namespace CaliforniaPoker

instance : JsonForm Category where
  toJson c := .ofText c.key
  ofJson? := Json.unitVariant? Category.all Category.key

instance : JsonForm HandRank where
  toJson h :=
    .record [("category", toJson h.category), ("tiebreakers", toJson h.tiebreakers),
      ("representative", toJson h.representative)]
  ofJson? j :=
    match Json.record? ["category", "tiebreakers", "representative"] j with
    | some [some category, some tiebreakers, representative] => do
      let category ← ofJson? category
      let tiebreakers ← ofJson? tiebreakers
      let representative ← ofJson? (representative.getD .null)
      return { category, tiebreakers, representative }
    | _ => none

instance : JsonForm BestHand where
  toJson b :=
    .record [("indices", toJson b.indices), ("cards", toJson b.cards), ("rank", toJson b.rank)]
  ofJson? j :=
    match Json.record? ["indices", "cards", "rank"] j with
    | some [some indices, some cards, some rank] => do
      let indices ← ofJson? indices
      let cards ← ofJson? cards
      let rank ← ofJson? rank
      return { indices, cards, rank }
    | _ => none

instance : JsonForm DiscardChoice where
  toJson d := toJson d.indices
  ofJson? j := (ofJson? j).bind fun indices => (DiscardChoice.ofIndices indices).toOption

instance : JsonForm Winner where
  toJson w := .ofText w.name
  ofJson? := Json.unitVariant? [.first, .second, .split] Winner.name

end CaliforniaPoker
