import CaliforniaPoker.Card.HandCard
import Mathlib.Algebra.Ring.Nat
import Mathlib.Data.List.Perm.Basic

/-!
# The naturals and the wilds of a list of entries

A list of entries is looked at through its natural cards, in their order, and the number of its
wilds. These determine the list up to the order of its entries.

## Main results

* `perm_naturals_append_wilds`: a list of entries consists of its naturals and its wilds.
* `length_naturals_add_wilds`: their numbers add up to its length.
* `count_filterMap_card?`: a natural is among the naturals as often as it is an entry.
-/

namespace CaliforniaPoker

@[simp] theorem filterMap_card?_natural (card : Card) (entries : List HandCard) :
    (HandCard.natural card :: entries).filterMap HandCard.card? =
      card :: entries.filterMap HandCard.card? := rfl

@[simp] theorem filterMap_card?_wild (entries : List HandCard) :
    (HandCard.wild :: entries).filterMap HandCard.card? = entries.filterMap HandCard.card? := rfl

@[simp] theorem countP_isWild_natural (card : Card) (entries : List HandCard) :
    (HandCard.natural card :: entries).countP HandCard.isWild = entries.countP HandCard.isWild :=
  List.countP_cons_of_neg Bool.false_ne_true

@[simp] theorem countP_isWild_wild (entries : List HandCard) :
    (HandCard.wild :: entries).countP HandCard.isWild = entries.countP HandCard.isWild + 1 :=
  List.countP_cons_of_pos rfl

theorem filterMap_card?_map_natural (cards : List Card) :
    (cards.map HandCard.natural).filterMap HandCard.card? = cards := by
  induction cards with
  | nil => rfl
  | cons card cards ih => rw [List.map_cons, filterMap_card?_natural, ih]

theorem countP_isWild_map_natural (cards : List Card) :
    (cards.map HandCard.natural).countP HandCard.isWild = 0 := by
  induction cards with
  | nil => rfl
  | cons card cards ih => rw [List.map_cons, countP_isWild_natural, ih]

/-- A natural is among the naturals as often as it is an entry. -/
theorem count_filterMap_card? (card : Card) (entries : List HandCard) :
    (entries.filterMap HandCard.card?).count card = entries.count (.natural card) := by
  induction entries with
  | nil => rfl
  | cons entry entries ih =>
    cases entry with
    | natural card' => simp [List.count_cons, ih]
    | wild => simp [ih]

theorem mem_filterMap_card?_iff {card : Card} {entries : List HandCard} :
    card ∈ entries.filterMap HandCard.card? ↔ .natural card ∈ entries := by
  rw [← List.count_pos_iff, count_filterMap_card?, List.count_pos_iff]

/-- A list of entries consists of its naturals and its wilds. -/
theorem perm_naturals_append_wilds (entries : List HandCard) :
    ((entries.filterMap HandCard.card?).map HandCard.natural ++
      List.replicate (entries.countP HandCard.isWild) HandCard.wild).Perm entries := by
  induction entries with
  | nil => exact List.Perm.refl _
  | cons entry entries ih =>
    cases entry with
    | natural card =>
      rw [filterMap_card?_natural, countP_isWild_natural]
      exact ih.cons _
    | wild =>
      rw [filterMap_card?_wild, countP_isWild_wild, List.replicate_succ]
      exact List.perm_middle.trans (ih.cons _)

/-- Every entry is a natural card or a wild. -/
theorem length_naturals_add_wilds (entries : List HandCard) :
    (entries.filterMap HandCard.card?).length + entries.countP HandCard.isWild =
      entries.length := by
  rw [← (perm_naturals_append_wilds entries).length_eq, List.length_append, List.length_map,
    List.length_replicate]

end CaliforniaPoker
