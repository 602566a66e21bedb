import CaliforniaPoker.Hand.Description
import CaliforniaPoker.Proofs.Hand.Image

/-!
# Descriptions tell hands apart

The English description of a hand names its category and every rank that decides. This file shows
that nothing is lost in it: two hands are described alike exactly when they tie. A description is
read from its beginning. How it opens shows the category, since no category opens as another one
does. Then the ranks follow one by one, since the name of no rank begins the name of another.

## Main definitions

* `IsPrefixFree`: texts of which none begins another.
* `Category.openings`: the texts with which the descriptions of a category begin.

## Main results

* `HandRank.category_eq_of_describe_eq`: hands that are described alike are of one category.
* `HandRank.tiebreakers_eq_of_describe_eq`: within a category they have the same tiebreakers.
* `HandRank.describe_eq_name_iff`: only royal flushes are described by the name of their category.
* `describe_eq_iff_compare_eq`: two hands are described alike exactly when they tie.
-/

namespace CaliforniaPoker

/-! ### Names of ranks -/

/-- Of two beginnings of a text one begins the other. -/
theorem prefix_or_prefix_of_append_eq {s t u v : String} (heq : s ++ u = t ++ v) :
    s.toList <+: t.toList ∨ t.toList <+: s.toList := by
  refine List.prefix_or_prefix_of_prefix (List.prefix_append _ u.toList) ?_
  rw [← String.toList_append, heq, String.toList_append]
  exact List.prefix_append _ _

/-- No text for one thing begins the text for another. -/
def IsPrefixFree {α : Type} (text : α → String) : Prop :=
  ∀ a b, (text a).toList <+: (text b).toList → a = b

namespace IsPrefixFree

variable {α : Type} {text : α → String} {a b : α} {s t : String}

/-- What follows such texts is read off together with them. -/
theorem append_inj (h : IsPrefixFree text) : text a ++ s = text b ++ t ↔ a = b ∧ s = t := by
  constructor
  · intro heq
    obtain rfl : a = b := by
      rcases prefix_or_prefix_of_append_eq heq with hbegins | hbegins
      · exact h a b hbegins
      · exact (h b a hbegins).symm
    exact ⟨rfl, (String.append_right_inj _).mp heq⟩
  · rintro ⟨rfl, rfl⟩
    rfl

theorem injective (h : IsPrefixFree text) : Function.Injective text := fun a b heq =>
  h a b (heq ▸ List.prefix_rfl)

end IsPrefixFree

theorem Rank.isPrefixFree_name : IsPrefixFree Rank.name := by
  have hall : ∀ r ∈ Rank.all, ∀ r' ∈ Rank.all, r.name.toList <+: r'.name.toList → r = r' := by
    decide
  exact fun r r' => hall r r.mem_all r' r'.mem_all

theorem Rank.isPrefixFree_plural : IsPrefixFree Rank.plural := by
  have hall : ∀ r ∈ Rank.all, ∀ r' ∈ Rank.all, r.plural.toList <+: r'.plural.toList → r = r' := by
    decide
  exact fun r r' => hall r r.mem_all r' r'.mem_all

/-! ### How descriptions begin -/

/-- The texts with which the descriptions of a category begin. Straights and high cards are told
from other categories by the rank that they name. -/
def Category.openings : Category → List String
  | .royalFlush => ["Royal Flush"]
  | .straightFlush => ["Straight Flush "]
  | .fourOfAKind => ["Four of a Kind, "]
  | .fullHouse => ["Full House, "]
  | .flush => ["Flush, "]
  | .straight => Rank.all.map fun r => "Straight " ++ r.name
  | .threeOfAKind => ["Three of a Kind, "]
  | .twoPair => ["Two Pair, "]
  | .onePair => ["Pair, "]
  | .highCard => Rank.all.map fun r => r.name ++ " high. "

/-- No category opens as another one does. -/
theorem Category.eq_of_mem_openings {category category' : Category} {text text' : String}
    (htext : text ∈ category.openings) (htext' : text' ∈ category'.openings)
    (hbegins : text.toList <+: text'.toList) : category = category' := by
  have hall : ∀ category ∈ all, ∀ category' ∈ all, ∀ text ∈ category.openings,
      ∀ text' ∈ category'.openings, text.toList <+: text'.toList → category = category' := by
    decide +kernel
  exact hall category category.mem_all category' category'.mem_all text htext text' htext' hbegins

/-- Below a royal flush a category opens with more than its name. -/
theorem Category.length_name_lt_of_mem_openings {category : Category} {text : String}
    (htext : text ∈ category.openings) (hcategory : category ≠ .royalFlush) :
    category.name.length < text.length := by
  have hall : ∀ category ∈ all, ∀ text ∈ category.openings, category ≠ .royalFlush →
      category.name.length < text.length := by decide
  exact hall category category.mem_all text htext hcategory

namespace HandRank

variable {h h' : HandRank}

/-- A category has always the same number of tiebreakers. -/
theorem length_eq_of_admits {category : Category} {groups groups' : List Rank}
    (h : category.Admits groups) (h' : category.Admits groups') :
    groups.length = groups'.length := by
  match category, groups, groups', h, h' with
  | .flush, _, _, h, h' | .highCard, _, _, h, h' => exact h.1.trans h'.1.symm
  | .royalFlush, [], [], _, _ | .straightFlush, [_], [_], _, _ | .straight, [_], [_], _, _
  | .fourOfAKind, [_, _], [_, _], _, _ | .fullHouse, [_, _], [_, _], _, _
  | .threeOfAKind, [_, _, _], [_, _, _], _, _ | .twoPair, [_, _, _], [_, _, _], _, _
  | .onePair, [_, _, _, _], [_, _, _, _], _, _ => rfl

/-- The description of a hand begins as its category opens. -/
theorem exists_opening (hadmits : h.category.Admits h.tiebreakers) :
    ∃ text ∈ h.category.openings, ∃ rest, h.describe = text ++ rest := by
  obtain ⟨category, groups, representative⟩ := h
  match category, groups, hadmits with
  | .royalFlush, _, _ => exact ⟨_, List.mem_singleton_self _, "", String.append_empty.symm⟩
  | .straight, [high], _ => exact ⟨_, List.mem_map_of_mem high.mem_all, _, rfl⟩
  | .highCard, high :: _, _ =>
    exact ⟨_, List.mem_map_of_mem high.mem_all, _, String.append_assoc⟩
  | .straightFlush, [_], _ | .fourOfAKind, [_, _], _ | .fullHouse, [_, _], _
  | .flush, _ :: _, _ | .threeOfAKind, _ :: _, _ | .twoPair, _ :: _ :: _, _
  | .onePair, _ :: _, _ =>
    exact ⟨_, List.mem_singleton_self _, _, by simp only [describe, String.append_assoc]; rfl⟩

/-- Hands that are described alike are of one category. -/
theorem category_eq_of_describe_eq (hadmits : h.category.Admits h.tiebreakers)
    (hadmits' : h'.category.Admits h'.tiebreakers) (heq : h.describe = h'.describe) :
    h.category = h'.category := by
  obtain ⟨text, htext, rest, hrest⟩ := exists_opening hadmits
  obtain ⟨text', htext', rest', hrest'⟩ := exists_opening hadmits'
  rw [hrest, hrest'] at heq
  rcases prefix_or_prefix_of_append_eq heq with hbegins | hbegins
  · exact Category.eq_of_mem_openings htext htext' hbegins
  · exact (Category.eq_of_mem_openings htext' htext hbegins).symm

/-! ### The ranks of a description -/

/-- As many ranks with the same names are the same ranks. -/
theorem eq_of_rankNames_eq {ranks ranks' : List Rank} (hlength : ranks.length = ranks'.length)
    (heq : rankNames ranks = rankNames ranks') : ranks = ranks' := by
  induction ranks generalizing ranks' with
  | nil => exact (List.length_eq_zero_iff.mp hlength.symm).symm
  | cons r rest ih =>
    obtain ⟨r', rest', rfl⟩ := List.exists_of_length_succ _ hlength.symm
    have hrest := Nat.succ.inj hlength
    cases rest with
    | nil =>
      obtain rfl := List.length_eq_zero_iff.mp hrest.symm
      simp only [rankNames, List.map_cons, List.map_nil, String.intercalate_singleton] at heq
      rw [Rank.isPrefixFree_name.injective heq]
    | cons s rest =>
      obtain ⟨s', rest', rfl⟩ := List.exists_of_length_succ _ hrest.symm
      simp only [rankNames, List.map_cons, String.intercalate_cons_cons, String.append_assoc,
        Rank.isPrefixFree_name.append_inj, String.append_right_inj] at heq
      rw [heq.1, ih hrest heq.2]

/-- Within a category the description shows the tiebreakers. -/
theorem tiebreakers_eq_of_describe_eq (hadmits : h.category.Admits h.tiebreakers)
    (hadmits' : h'.category.Admits h'.tiebreakers) (hcategory : h.category = h'.category)
    (heq : h.describe = h'.describe) : h.tiebreakers = h'.tiebreakers := by
  obtain ⟨category, groups, representative⟩ := h
  obtain ⟨_, groups', representative'⟩ := h'
  obtain rfl : category = _ := hcategory
  have hlength : groups.length = groups'.length := length_eq_of_admits hadmits hadmits'
  match category, groups, groups', hadmits, hadmits' with
  | .royalFlush, [], [], _, _ => rfl
  | .straightFlush, [high], [high'], _, _ | .straight, [high], [high'], _, _ =>
    simp only [describe, String.append_assoc, String.append_right_inj,
      Rank.isPrefixFree_name.append_inj] at heq
    rw [heq.1]
  | .fourOfAKind, [quads, kicker], [quads', kicker'], _, _ =>
    simp only [describe, String.append_assoc, String.append_right_inj,
      Rank.isPrefixFree_plural.append_inj, Rank.isPrefixFree_name.append_inj] at heq
    rw [heq.1, heq.2.1]
  | .fullHouse, [trips, pair], [trips', pair'], _, _ =>
    simp only [describe, String.append_assoc, String.append_right_inj,
      Rank.isPrefixFree_plural.append_inj] at heq
    rw [heq.1, Rank.isPrefixFree_plural.injective heq.2]
  | .flush, high :: rest, high' :: rest', _, _
  | .highCard, high :: rest, high' :: rest', _, _ =>
    simp only [describe, String.append_assoc, String.append_right_inj,
      Rank.isPrefixFree_name.append_inj, String.append_left_inj] at heq
    rw [heq.1, eq_of_rankNames_eq (Nat.succ.inj hlength) heq.2]
  | .threeOfAKind, trips :: rest, trips' :: rest', _, _
  | .onePair, trips :: rest, trips' :: rest', _, _ =>
    simp only [describe, String.append_assoc, String.append_right_inj,
      Rank.isPrefixFree_plural.append_inj, String.append_left_inj] at heq
    rw [heq.1, eq_of_rankNames_eq (Nat.succ.inj hlength) heq.2]
  | .twoPair, high :: low :: rest, high' :: low' :: rest', _, _ =>
    simp only [describe, String.append_assoc, String.append_right_inj,
      Rank.isPrefixFree_plural.append_inj, String.append_left_inj] at heq
    rw [heq.1, heq.2.1, eq_of_rankNames_eq (Nat.succ.inj (Nat.succ.inj hlength)) heq.2.2]

/-! ### Names of categories -/

/-- Below a royal flush the description says more than the name of the category. -/
theorem length_name_lt (hadmits : h.category.Admits h.tiebreakers)
    (hcategory : h.category ≠ .royalFlush) : h.category.name.length < h.describe.length := by
  obtain ⟨text, htext, rest, hrest⟩ := exists_opening hadmits
  have hlonger := Category.length_name_lt_of_mem_openings htext hcategory
  rw [hrest, String.length_append]
  exact Nat.lt_add_right _ hlonger

/-- Only royal flushes are described by the name of their category alone. -/
theorem describe_eq_name_iff (hadmits : h.category.Admits h.tiebreakers) :
    h.describe = h.category.name ↔ h.category = .royalFlush := by
  constructor
  · intro heq
    by_contra hcategory
    exact (length_name_lt hadmits hcategory).ne (congrArg String.length heq.symm)
  · intro hcategory
    rw [describe, hcategory]

/-- The representative of a hand does not show in its description. -/
theorem describe_congr (hcategory : h.category = h'.category)
    (htiebreakers : h.tiebreakers = h'.tiebreakers) : h.describe = h'.describe := by
  rw [describe, describe, hcategory, htiebreakers]

end HandRank

/-- **Descriptions are faithful.** Two hands, with wilds or without, are described alike exactly
when they tie, that is when they agree in category and tiebreakers. The description of a hand is the
bare name of its category only for a royal flush. -/
theorem describe_eq_iff_compare_eq {entries entries' : List HandCard} {a b : HandRank}
    (ha : evaluate entries = .ok a) (hb : evaluate entries' = .ok b) :
    (a.describe = b.describe ↔ compare a b = .eq) ∧
      (a.describe = b.describe ↔ a.category = b.category ∧ a.tiebreakers = b.tiebreakers) ∧
      (a.describe = a.category.name ↔ a.category = .royalFlush) := by
  have hadmits := admits_of_evaluate ha
  have hadmits' := admits_of_evaluate hb
  have hiff : a.describe = b.describe ↔
      a.category = b.category ∧ a.tiebreakers = b.tiebreakers := by
    constructor
    · intro heq
      have hcategory := HandRank.category_eq_of_describe_eq hadmits hadmits' heq
      exact ⟨hcategory, HandRank.tiebreakers_eq_of_describe_eq hadmits hadmits' hcategory heq⟩
    · exact fun h => HandRank.describe_congr h.1 h.2
  exact ⟨hiff.trans HandRank.compare_eq_eq_iff.symm, hiff, HandRank.describe_eq_name_iff hadmits⟩

/-- Three sixes with a wild are described as three natural sixes, since these hands tie. -/
theorem describe_eq_iff_compare_eq_sixes :
    ∃ a b, evaluate [.natural ⟨.clubs, .king⟩, .natural ⟨.hearts, .six⟩, .wild,
          .natural ⟨.spades, .two⟩, .natural ⟨.clubs, .six⟩] = .ok a ∧
      evaluate [.natural ⟨.diamonds, .six⟩, .natural ⟨.spades, .king⟩, .natural ⟨.spades, .six⟩,
          .natural ⟨.clubs, .two⟩, .natural ⟨.clubs, .six⟩] = .ok b ∧
      compare a b = .eq ∧ a.describe = "Three of a Kind, Sixes. King, Two kickers" ∧
      b.describe = a.describe ∧ a.describe ≠ a.category.name := by
  have ha : evaluate [.natural ⟨.clubs, .king⟩, .natural ⟨.hearts, .six⟩, .wild,
      .natural ⟨.spades, .two⟩, .natural ⟨.clubs, .six⟩] =
        .ok ⟨.threeOfAKind, [.six, .king, .two], some ⟨.hearts, .six⟩⟩ := rfl
  have hb : evaluate [.natural ⟨.diamonds, .six⟩, .natural ⟨.spades, .king⟩,
      .natural ⟨.spades, .six⟩, .natural ⟨.clubs, .two⟩, .natural ⟨.clubs, .six⟩] =
        .ok ⟨.threeOfAKind, [.six, .king, .two], some ⟨.diamonds, .six⟩⟩ := rfl
  obtain ⟨htie, -, hname⟩ := describe_eq_iff_compare_eq ha hb
  exact ⟨_, _, ha, hb, rfl, by decide, (htie.mpr rfl).symm, fun h => nomatch hname.mp h⟩

end CaliforniaPoker
