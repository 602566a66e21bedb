import CaliforniaPoker.Hand.HandRank

/-!
# Descriptions of hands

The English description of a hand's value names its category and every rank that decides. A value
with fewer tiebreakers than its category needs is described by the name of the category alone.
-/

namespace CaliforniaPoker.HandRank

/-- The names of some ranks, a comma and a space between two. -/
def rankNames (ranks : List Rank) : String := ", ".intercalate (ranks.map Rank.name)

/-- The English description of a value. -/
def describe (h : HandRank) : String :=
  match h.category, h.tiebreakers with
  | .royalFlush, _ => Category.royalFlush.name
  | .straightFlush, high :: _ => "Straight Flush " ++ high.name ++ " High"
  | .straight, high :: _ => "Straight " ++ high.name ++ " High"
  | .flush, high :: rest =>
    "Flush, " ++ high.name ++ " high, " ++ rankNames rest ++ " kickers"
  | .fourOfAKind, quads :: kicker :: _ =>
    "Four of a Kind, " ++ quads.plural ++ ". " ++ kicker.name ++ " kicker"
  | .fullHouse, trips :: pair :: _ => "Full House, " ++ trips.plural ++ " over " ++ pair.plural
  | .threeOfAKind, trips :: rest =>
    "Three of a Kind, " ++ trips.plural ++ ". " ++ rankNames rest ++ " kickers"
  | .twoPair, high :: low :: rest =>
    "Two Pair, " ++ high.plural ++ " over " ++ low.plural ++ ", " ++ rankNames rest ++ " kicker"
  | .onePair, pair :: rest => "Pair, " ++ pair.plural ++ ". " ++ rankNames rest ++ " kickers"
  | .highCard, high :: rest => high.name ++ " high. " ++ rankNames rest ++ " kickers"
  | category, _ => category.name

end CaliforniaPoker.HandRank
