import CaliforniaPoker.Proofs.Hand.Admitted
import CaliforniaPoker.Proofs.Hand.GroupCounters
import CaliforniaPoker.Proofs.Refusal

/-!
# What the evaluation of a list of entries comes to

The size of a list of entries is looked at first, then its naturals are compared with those before
them; wilds may occur any number of times. A list that passes both tests has a value. This file
shows that the evaluation gets to it on every such list: no counter of the searches for groups goes
below zero, and a category that is recognised by its groups has the groups that the search found.

## Main definitions

* `IsFirstRepeat`: the first natural among some entries that equals an earlier one.

## Main results

* `isFirstRepeat_iff`: the repeat that is reported is the first.
* `exists_isFirstRepeat_iff`: there is a first repeat when some natural occurs twice.
* `bestGrouping?_of_evaluateWithWilds`: the groups of a value are found, those of high card too.
* `evaluate_outcome_iff`: the three outcomes, and that the way to a value has no gap.
-/

namespace CaliforniaPoker

variable {entries : List HandCard} {card : Card} {naturals : List Card} {wilds : Nat}

/-! ### Naturals that repeat -/

/-- The natural equals an earlier one of some entries, and up to it none does. -/
def IsFirstRepeat (entries : List HandCard) (card : Card) : Prop :=
  ∃ before after, entries = before ++ .natural card :: after ∧ .natural card ∈ before ∧
    ∀ c, before.count (.natural c) ≤ 1

/-- Different naturals are those of which no entry occurs twice. -/
theorem nodup_filterMap_card?_iff : (entries.filterMap HandCard.card?).Nodup ↔
    ∀ card, entries.count (.natural card) ≤ 1 := by
  simp only [List.nodup_iff_count_le_one, count_filterMap_card?]

/-- A natural among those of some entries splits the entries as it splits the naturals. -/
theorem exists_split_of_filterMap_card? {before after : List Card}
    (h : entries.filterMap HandCard.card? = before ++ card :: after) :
    ∃ earlier later, entries = earlier ++ .natural card :: later ∧
      earlier.filterMap HandCard.card? = before := by
  obtain ⟨first, rest, rfl, rfl, hrest⟩ := List.filterMap_eq_append_iff.mp h
  obtain ⟨wilds, entry, later, rfl, hwilds, hentry, -⟩ := List.filterMap_eq_cons_iff.mp hrest
  obtain rfl : entry = .natural card := by
    cases entry with
    | natural c => rw [Option.some.inj hentry]
    | wild => exact nomatch hentry
  refine ⟨first ++ wilds, later, (List.append_assoc _ _ _).symm, ?_⟩
  rw [List.filterMap_append, List.filterMap_eq_nil_iff.mpr hwilds, List.append_nil]

/-- The repeat that the evaluation reports is the first one among the entries. -/
theorem isFirstRepeat_iff : IsFirstRepeat entries card ↔
    firstRepeat? [] (entries.filterMap HandCard.card?) = some card := by
  rw [firstRepeat?_eq_some_iff]
  constructor
  · rintro ⟨before, after, rfl, hmem, hcount⟩
    refine ⟨before.filterMap HandCard.card?, after.filterMap HandCard.card?, ?_, .inl ?_, ?_, ?_⟩
    · rw [List.filterMap_append, filterMap_card?_natural]
    · exact mem_filterMap_card?_iff.mpr hmem
    · exact nodup_filterMap_card?_iff.mpr hcount
    · exact fun c _ => List.not_mem_nil
  · rintro ⟨before, after, hsplit, hmem, hnodup, -⟩
    obtain ⟨earlier, later, rfl, rfl⟩ := exists_split_of_filterMap_card? hsplit
    refine ⟨earlier, later, rfl, ?_, nodup_filterMap_card?_iff.mp hnodup⟩
    exact mem_filterMap_card?_iff.mp (hmem.resolve_right List.not_mem_nil)

/-- Some natural is the first that repeats exactly when some natural occurs twice. -/
theorem exists_isFirstRepeat_iff :
    (∃ card, IsFirstRepeat entries card) ↔ ∃ card, 2 ≤ entries.count (.natural card) := by
  have hnone : firstRepeat? [] (entries.filterMap HandCard.card?) = none ↔
      ∀ card, entries.count (.natural card) ≤ 1 := by
    rw [firstRepeat?_eq_none_iff, nodup_filterMap_card?_iff]
    simp
  simp only [isFirstRepeat_iff, ← Option.isSome_iff_exists, ← Option.ne_none_iff_isSome, ne_eq,
    hnone, not_forall, not_le]
  exact Iff.rfl

/-! ### Groups that are found -/

/-- A category that is recognised by its groups is attempted by the search for them. -/
theorem attempt?_eq_bestGrouping? {category : Category} {sizes : List Nat}
    (h : category.sizes? = some sizes) :
    attempt? naturals wilds category = bestGrouping? (naturals.map Card.rank) wilds sizes := by
  cases category with
  | straight | flush | straightFlush | royalFlush => exact nomatch h
  | highCard | onePair | twoPair | threeOfAKind | fullHouse | fourOfAKind =>
    obtain rfl := Option.some.inj h
    rfl

/-- The tiebreakers of a value that is recognised by its groups are those which the search found. In
particular the search for five single cards has succeeded when a hand is worth its high card. -/
theorem bestGrouping?_of_evaluateWithWilds {h : HandRank} {sizes : List Nat}
    (hok : evaluateWithWilds naturals wilds = .ok h) (hsizes : h.category.sizes? = some sizes) :
    bestGrouping? (naturals.map Card.rank) wilds sizes = some h.tiebreakers := by
  obtain ⟨hsize, hnodup, hclassify⟩ := evaluateWithWilds_eq_ok hok
  have hfirst := findSome?_attempt? hnodup hsize
  rw [hclassify, findSome?_marks_eq_some_iff] at hfirst
  rw [← attempt?_eq_bestGrouping? hsizes]
  exact hfirst.1

/-! ### The three outcomes -/

/-- **When an evaluation fails.** A list of entries is refused for its size exactly when it does not
have five entries, whether or not cards repeat; with five entries it is refused for a natural
exactly when this is the first natural that equals an earlier one, and there is such a natural
exactly when some natural occurs twice; in all other cases it has a value. For whatever pattern
groups are searched, no subtraction of the search goes below zero; when the value is of a category
that is recognised by its groups, and so also when it is of high card, the search with checked
subtractions has found the groups that are its tiebreakers. -/
theorem evaluate_outcome_iff (entries : List HandCard) :
    (evaluate entries = .error (.wrongSize 5 entries.length) ↔ entries.length ≠ 5) ∧
      (∀ card, evaluate entries = .error (.duplicateCard card) ↔
        entries.length = 5 ∧ IsFirstRepeat entries card) ∧
      ((∃ card, IsFirstRepeat entries card) ↔ ∃ card, 2 ≤ entries.count (.natural card)) ∧
      ((∃ h, evaluate entries = .ok h) ↔
        entries.length = 5 ∧ ∀ card, entries.count (.natural card) ≤ 1) ∧
      (∀ sizes, checkedGrouping? ((entries.filterMap HandCard.card?).map Card.rank)
          (entries.countP HandCard.isWild) sizes =
        some (bestGrouping? ((entries.filterMap HandCard.card?).map Card.rank)
          (entries.countP HandCard.isWild) sizes)) ∧
      ∀ h sizes, evaluate entries = .ok h → h.category.sizes? = some sizes →
        checkedGrouping? ((entries.filterMap HandCard.card?).map Card.rank)
          (entries.countP HandCard.isWild) sizes = some (some h.tiebreakers) := by
  refine ⟨?_, fun card => ?_, exists_isFirstRepeat_iff, ?_, checkedGrouping?_eq _ _, ?_⟩
  · rw [evaluate_eq_error_iff]
    simp [handSize]
  · rw [evaluate_eq_error_iff, isFirstRepeat_iff]
    simp [handSize]
  · rw [exists_evaluate_eq_ok_iff, nodup_filterMap_card?_iff]
    exact Iff.rfl
  · intro h sizes hok hsizes
    rw [checkedGrouping?_eq, bestGrouping?_of_evaluateWithWilds hok hsizes]

/-- Four entries are refused as too few though an ace repeats. Among five entries the ace that
repeats first is named, and not the king, which occurs twice as well. -/
theorem evaluate_outcome_aces :
    evaluate [.natural ⟨.spades, .ace⟩, .natural ⟨.spades, .ace⟩, .wild, .wild] =
        .error (.wrongSize 5 4) ∧
      evaluate [.natural ⟨.clubs, .king⟩, .natural ⟨.spades, .ace⟩, .wild,
        .natural ⟨.spades, .ace⟩, .natural ⟨.clubs, .king⟩] =
          .error (.duplicateCard ⟨.spades, .ace⟩) ∧
      checkedGrouping? [.ace, .king] 3 [4, 1] = some (some [.ace, .king]) := by
  obtain ⟨hsize, -⟩ := evaluate_outcome_iff
    [.natural ⟨.spades, .ace⟩, .natural ⟨.spades, .ace⟩, .wild, .wild]
  obtain ⟨-, hrepeat, -⟩ := evaluate_outcome_iff [.natural ⟨.clubs, .king⟩,
    .natural ⟨.spades, .ace⟩, .wild, .natural ⟨.spades, .ace⟩, .natural ⟨.clubs, .king⟩]
  obtain ⟨-, -, -, -, -, hfound⟩ := evaluate_outcome_iff
    [.natural ⟨.spades, .ace⟩, .wild, .wild, .natural ⟨.clubs, .king⟩, .wild]
  refine ⟨hsize.mpr (by decide), (hrepeat _).mpr ⟨rfl, ?_⟩, hfound _ _ rfl rfl⟩
  exact isFirstRepeat_iff.mpr rfl

end CaliforniaPoker
