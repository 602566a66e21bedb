import CaliforniaPoker.Proofs.Hand.BestMarks
import CaliforniaPoker.Proofs.Hand.Entries

/-!
# The value of a hand is the best that its wilds can make it

The evaluation never puts a card in the place of a wild. This file shows that its result is
nevertheless the greatest value that the hand can have when its wilds become cards that differ from
the naturals and from each other.

## Main results

* `findSome?_marks_eq_some_iff`: the evaluation gives the highest category that has marks.
* `isGreatest_of_findSome?`: the best marks of the highest category that has any are the greatest
  value.
* `isGreatest_evaluateWithWilds`: the value of naturals and wilds is the greatest that they reach.
* `evaluateWithWilds_best_substitution`: no substitution of the wilds has a higher value, and some
  substitution has this one.
-/

namespace CaliforniaPoker

variable {naturals : List Card} {wilds : Nat} {value : HandRank}

/-! ### The highest category that is reached -/

/-- With five entries in all, the values that are reached are those of the hands that keep all
naturals. -/
theorem reaches_iff (hnodup : naturals.Nodup) (hsize : naturals.length + wilds = handSize) :
    Reaches naturals wilds value ↔ ∃ hand : FullHand, naturals ⊆ hand.cards ∧
      hand.marks? value.category = some value.tiebreakers := by
  simp only [Reaches, countP_notMem_le_iff hnodup hsize]

/-- If there are marks in some category, there is a highest category that has any. -/
theorem exists_findSome?_of_marks {best : Category → Option (List Rank)} {category : Category}
    {groups : List Rank} (h : best category = some groups) :
    ∃ found, (Category.all.reverse.findSome? fun category =>
      (best category).map (category, ·)) = some found := by
  rw [← Option.isSome_iff_exists, List.findSome?_isSome_iff]
  refine ⟨category, List.mem_reverse.mpr category.mem_all, ?_⟩
  rw [h, Option.map_some, Option.isSome_some]

/-- What is found first is the marks of the highest category in which there are any. -/
theorem findSome?_marks_eq_some_iff {best : Category → Option (List Rank)} {category : Category}
    {groups : List Rank} : (Category.all.reverse.findSome? fun category =>
      (best category).map (category, ·)) = some (category, groups) ↔
        best category = some groups ∧ ∀ category' groups', best category' = some groups' →
          category'.code ≤ category.code := by
  have hsorted : Category.all.reverse.Pairwise fun c c' => c'.code < c.code := by decide
  have hfirst {category : Category} {groups : List Rank}
      (h : (Category.all.reverse.findSome? fun category =>
        (best category).map (category, ·)) = some (category, groups)) :
      best category = some groups ∧ ∀ category' groups', best category' = some groups' →
        category'.code ≤ category.code := by
    obtain ⟨higher, c, lower, hsplit, hfound, hhigher⟩ := List.findSome?_eq_some_iff.mp h
    obtain ⟨groups, hgroups, heq⟩ := Option.map_eq_some_iff.mp hfound
    obtain ⟨rfl, rfl⟩ := Prod.mk.inj heq
    refine ⟨hgroups, fun category' groups' hmarks => ?_⟩
    have hmem : category' ∈ Category.all.reverse := List.mem_reverse.mpr category'.mem_all
    rw [hsplit] at hsorted hmem
    rw [List.pairwise_append, List.pairwise_cons] at hsorted
    rcases List.mem_append.mp hmem with hmem | hmem
    · -- a higher category would have been taken
      have hnone := hhigher _ hmem
      rw [hmarks] at hnone
      exact nomatch hnone
    · rcases List.mem_cons.mp hmem with rfl | hmem
      · exact Nat.le_refl _
      · exact Nat.le_of_lt (hsorted.2.1.1 _ hmem)
  refine ⟨hfirst, fun ⟨hmarks, hhighest⟩ => ?_⟩
  obtain ⟨⟨category', groups'⟩, hfound⟩ := exists_findSome?_of_marks hmarks
  obtain ⟨hmarks', hhighest'⟩ := hfirst hfound
  have hcode := Nat.le_antisymm (hhighest' _ _ hmarks) (hhighest _ _ hmarks')
  obtain rfl := Category.code_injective hcode
  rw [hmarks, Option.some.injEq] at hmarks'
  rw [hmarks']
  exact hfound

/-- The best marks of the highest category in which there are any make up the greatest value. -/
theorem isGreatest_of_findSome? {best : Category → Option (List Rank)} (hnodup : naturals.Nodup)
    (hsize : naturals.length + wilds = handSize)
    (hbest : ∀ category, IsBestMark naturals category (best category))
    (hfirst : (Category.all.reverse.findSome? fun category => (best category).map (category, ·)) =
      some (value.category, value.tiebreakers)) :
    IsGreatest {v | Reaches naturals wilds v} value := by
  obtain ⟨hgroups, hhighest⟩ := findSome?_marks_eq_some_iff.mp hfirst
  constructor
  · exact (reaches_iff hnodup hsize).mpr ((hbest _).shown _ hgroups)
  · intro v hv
    obtain ⟨hand, hkeep, hmarks⟩ := (reaches_iff hnodup hsize).mp hv
    obtain ⟨groups', hgroups', hle⟩ := (hbest _).greatest hand _ hkeep hmarks
    rw [HandRank.le_iff]
    rcases Nat.lt_or_eq_of_le (hhighest _ _ hgroups') with hlt | hcode
    · exact .inl hlt
    · have heq := Category.code_injective hcode
      rw [heq, hgroups] at hgroups'
      exact .inr ⟨heq, Option.some.inj hgroups' ▸ hle⟩

/-- The evaluation keeps what the first successful attempt gives, the highest category first. -/
theorem classify_eq_of_findSome? {found : Category × List Rank}
    (h : (Category.all.reverse.findSome? fun category =>
      (attempt? naturals wilds category).map (category, ·)) = some found) :
    classify naturals wilds = found := by
  have horder : Category.all.reverse = [.royalFlush, .straightFlush, .fourOfAKind, .fullHouse,
    .flush, .straight, .threeOfAKind, .twoPair, .onePair, .highCard] := rfl
  rw [horder] at h
  simp only [List.findSome?_cons, attempt?] at h
  rw [classify]
  cases hsf : straightFlushHigh? naturals wilds with
  | some high => cases high <;> simpa [hsf] using h
  | none =>
  rw [hsf] at h
  cases hquads : bestGrouping? (naturals.map Card.rank) wilds [4, 1] with
  | some found => simpa [hquads] using h
  | none =>
  cases hhouse : bestGrouping? (naturals.map Card.rank) wilds [3, 2] with
  | some found => simpa [hquads, hhouse] using h
  | none =>
  cases hflush : flushRanks? naturals wilds with
  | some found => simpa [hquads, hhouse, hflush] using h
  | none =>
  cases hstraight : straightHigh? (naturals.map Card.rank) with
  | some high => simpa [hquads, hhouse, hflush, hstraight] using h
  | none =>
  cases htrips : bestGrouping? (naturals.map Card.rank) wilds [3, 1, 1] with
  | some found => simpa [hquads, hhouse, hflush, hstraight, htrips] using h
  | none =>
  cases hpairs : bestGrouping? (naturals.map Card.rank) wilds [2, 2, 1] with
  | some found => simpa [hquads, hhouse, hflush, hstraight, htrips, hpairs] using h
  | none =>
  cases hpair : bestGrouping? (naturals.map Card.rank) wilds [2, 1, 1, 1] with
  | some found => simpa [hquads, hhouse, hflush, hstraight, htrips, hpairs, hpair] using h
  | none =>
  cases hsingles : bestGrouping? (naturals.map Card.rank) wilds [1, 1, 1, 1, 1] with
  | some found => simpa [hquads, hhouse, hflush, hstraight, htrips, hpairs, hpair, hsingles] using h
  | none => simp [hquads, hhouse, hflush, hstraight, htrips, hpairs, hpair, hsingles] at h

/-- Five entries with different naturals can always be completed to a hand. -/
theorem exists_fullHand (hnodup : naturals.Nodup) (hsize : naturals.length + wilds = handSize) :
    ∃ hand : FullHand, naturals ⊆ hand.cards := by
  have hroom : naturals.length + wilds ≤ 52 := by
    rw [hsize]
    decide
  obtain ⟨fresh, hfresh, hcards⟩ := exists_fresh_cards hnodup hroom
  have hlength : (naturals ++ fresh).length = handSize := by
    rw [List.length_append, hfresh, hsize]
  exact ⟨⟨naturals ++ fresh, hlength, hcards⟩, List.subset_append_left _ _⟩

/-- Some attempt succeeds, and the first that does gives the result of the evaluation. -/
theorem findSome?_attempt? (hnodup : naturals.Nodup) (hsize : naturals.length + wilds = handSize) :
    (Category.all.reverse.findSome? fun category =>
      (attempt? naturals wilds category).map (category, ·)) = some (classify naturals wilds) := by
  obtain ⟨hand, hkeep⟩ := exists_fullHand hnodup hsize
  obtain ⟨category, groups, hmarks⟩ := hand.exists_marks
  obtain ⟨groups', hgroups', -⟩ :=
    (isBestMark_attempt? hnodup hsize category).greatest hand groups hkeep hmarks
  obtain ⟨found, hfound⟩ := exists_findSome?_of_marks hgroups'
  rw [hfound, classify_eq_of_findSome? hfound]

/-! ### When there is a value -/

theorem firstRepeat?_eq_none_iff {seen cards : List Card} :
    firstRepeat? seen cards = none ↔ cards.Nodup ∧ ∀ c ∈ cards, c ∉ seen := by
  induction cards generalizing seen with
  | nil => simp [firstRepeat?]
  | cons c cards ih =>
    rw [firstRepeat?]
    split_ifs with hc
    · simp [hc]
    · rw [ih, List.nodup_cons]
      constructor
      · rintro ⟨hnodup, hnew⟩
        refine ⟨⟨fun hmem => hnew c hmem List.mem_cons_self, hnodup⟩, ?_⟩
        rw [List.forall_mem_cons]
        exact ⟨hc, fun c' hc' hseen => hnew c' hc' (List.mem_cons_of_mem c hseen)⟩
      · rintro ⟨⟨hmem, hnodup⟩, hnew⟩
        rw [List.forall_mem_cons] at hnew
        refine ⟨hnodup, fun c' hc' => ?_⟩
        rw [List.mem_cons, not_or]
        exact ⟨fun heq => hmem (heq ▸ hc'), hnew.2 c' hc'⟩

/-- Five entries whose naturals differ have a value, and only these; category and tiebreakers are
those of the classification. -/
theorem evaluateWithWilds_eq_ok {h : HandRank} (hok : evaluateWithWilds naturals wilds = .ok h) :
    naturals.length + wilds = handSize ∧ naturals.Nodup ∧
      classify naturals wilds = (h.category, h.tiebreakers) := by
  rw [evaluateWithWilds] at hok
  split_ifs at hok with hsize
  cases hrepeat : firstRepeat? [] naturals with
  | some card => simp [hrepeat] at hok
  | none =>
    rw [hrepeat] at hok
    obtain rfl := Except.ok.inj hok
    exact ⟨not_not.mp hsize, (firstRepeat?_eq_none_iff.mp hrepeat).1, rfl⟩

theorem exists_evaluateWithWilds (hnodup : naturals.Nodup)
    (hsize : naturals.length + wilds = handSize) :
    ∃ h, evaluateWithWilds naturals wilds = .ok h := by
  have hrepeat : firstRepeat? [] naturals = none :=
    firstRepeat?_eq_none_iff.mpr ⟨hnodup, fun _ _ => List.not_mem_nil⟩
  rw [evaluateWithWilds, if_neg (not_not.mpr hsize), hrepeat]
  exact ⟨_, rfl⟩

/-- Only lists of five entries have a value. -/
theorem length_of_evaluate_eq_ok {entries : List HandCard} {h : HandRank}
    (hok : evaluate entries = .ok h) : entries.length = handSize := by
  rw [← length_naturals_add_wilds]
  exact (evaluateWithWilds_eq_ok hok).1

/-- A list of entries has a value exactly when there are five of them and its naturals differ. -/
theorem exists_evaluate_eq_ok_iff {entries : List HandCard} :
    (∃ h, evaluate entries = .ok h) ↔
      entries.length = handSize ∧ (entries.filterMap HandCard.card?).Nodup := by
  rw [← length_naturals_add_wilds]
  constructor
  · rintro ⟨h, hok⟩
    obtain ⟨hsize, hnodup, -⟩ := evaluateWithWilds_eq_ok hok
    exact ⟨hsize, hnodup⟩
  · rintro ⟨hsize, hnodup⟩
    exact exists_evaluateWithWilds hnodup hsize

/-- The value of natural cards and wilds is the greatest that they reach. -/
theorem isGreatest_evaluateWithWilds {h : HandRank}
    (hok : evaluateWithWilds naturals wilds = .ok h) :
    IsGreatest {v | Reaches naturals wilds v} h := by
  obtain ⟨hsize, hnodup, hclassify⟩ := evaluateWithWilds_eq_ok hok
  refine isGreatest_of_findSome? hnodup hsize (isBestMark_attempt? hnodup hsize) ?_
  rw [findSome?_attempt? hnodup hsize, hclassify]

/-- A wild in the place of any entry makes a hand no worse. -/
theorem exists_evaluate_le_of_wild {entry : HandCard} {rest entries entries' : List HandCard}
    {h : HandRank} (hok : evaluate entries = .ok h) (hentries : entries.Perm (entry :: rest))
    (hentries' : entries'.Perm (.wild :: rest)) : ∃ h', evaluate entries' = .ok h' ∧ h ≤ h' := by
  obtain ⟨hlength, hnodup⟩ := exists_evaluate_eq_ok_iff.mp ⟨h, hok⟩
  have hreaches := (isGreatest_evaluateWithWilds hok).1
  have hnaturals := hentries.filterMap HandCard.card?
  have hwilds := hentries.countP_eq HandCard.isWild
  have hrest : (rest.filterMap HandCard.card?).Nodup ∧
      Reaches (rest.filterMap HandCard.card?) (rest.countP HandCard.isWild + 1) h := by
    cases entry with
    | natural card =>
      rw [filterMap_card?_natural] at hnaturals
      rw [countP_isWild_natural] at hwilds
      exact ⟨(List.nodup_cons.mp (hnaturals.nodup_iff.mp hnodup)).2,
        (hreaches.mono hnaturals.subset hwilds.le).of_cons⟩
    | wild =>
      rw [filterMap_card?_wild] at hnaturals
      rw [countP_isWild_wild] at hwilds
      exact ⟨hnaturals.nodup_iff.mp hnodup, hreaches.mono hnaturals.subset hwilds.le⟩
  have hnaturals' := hentries'.filterMap HandCard.card?
  have hwilds' := hentries'.countP_eq HandCard.isWild
  rw [filterMap_card?_wild] at hnaturals'
  rw [countP_isWild_wild] at hwilds'
  have hlength' := (hentries'.length_eq.trans hentries.length_eq.symm).trans hlength
  obtain ⟨h', hok'⟩ := exists_evaluate_eq_ok_iff.mpr ⟨hlength', hnaturals'.nodup_iff.mpr hrest.1⟩
  exact ⟨h', hok', (isGreatest_evaluateWithWilds hok').2
    (hrest.2.mono hnaturals'.symm.subset hwilds'.ge)⟩

/-! ### Substitutions -/

/-- Cards of the deck in the place of wilds, different from the naturals and from each other. -/
structure Substitution (naturals : List Card) (wilds : Nat) where
  /-- A card for each wild. -/
  fill : List Card
  length_eq : fill.length = wilds
  nodup : (naturals ++ fill).Nodup

/-- The hand without wilds that a substitution makes. -/
def Substitution.hand (s : Substitution naturals wilds) : List HandCard :=
  (naturals ++ s.fill).map .natural

theorem evaluate_map_natural (cards : List Card) :
    evaluate (cards.map .natural) = evaluateWithWilds cards 0 := by
  rw [evaluate, filterMap_card?_map_natural, countP_isWild_map_natural]

/-- A substitution of the wilds makes a hand whose values are reached by the naturals and wilds. -/
theorem Substitution.reaches (s : Substitution naturals wilds)
    (hsize : naturals.length + wilds = handSize) (h : Reaches (naturals ++ s.fill) 0 value) :
    Reaches naturals wilds value := by
  have hfull : (naturals ++ s.fill).length + 0 = handSize := by
    rw [List.length_append, s.length_eq, Nat.add_zero, hsize]
  obtain ⟨hand, hkeep, hmarks⟩ := (reaches_iff s.nodup hfull).mp h
  have hnodup : naturals.Nodup := (List.nodup_append.mp s.nodup).1
  refine (reaches_iff hnodup hsize).mpr ⟨hand, fun c hc => hkeep ?_, hmarks⟩
  exact List.mem_append_left _ hc

/-- Every substitution of the wilds makes a hand that has a value, and none above that of the
naturals and wilds. -/
theorem Substitution.exists_evaluate_le (s : Substitution naturals wilds) {h : HandRank}
    (hok : evaluateWithWilds naturals wilds = .ok h) :
    ∃ h', evaluate s.hand = .ok h' ∧ h' ≤ h := by
  obtain ⟨hsize, -, -⟩ := evaluateWithWilds_eq_ok hok
  have hfull : (naturals ++ s.fill).length + 0 = handSize := by
    rw [List.length_append, s.length_eq, Nat.add_zero, hsize]
  obtain ⟨h', hok'⟩ := exists_evaluateWithWilds s.nodup hfull
  refine ⟨h', by rw [hand, evaluate_map_natural, hok'], ?_⟩
  exact (isGreatest_evaluateWithWilds hok).2 (s.reaches hsize (isGreatest_evaluateWithWilds hok').1)

/-- A hand that keeps the naturals is made by a substitution of the wilds. -/
theorem exists_substitution {hand : FullHand} (hnodup : naturals.Nodup)
    (hsize : naturals.length + wilds = handSize) (hkeep : naturals ⊆ hand.cards) :
    ∃ s : Substitution naturals wilds, (naturals ++ s.fill).Perm hand.cards := by
  have hsub := List.subperm_of_subset hnodup hkeep
  have hperm : (naturals ++ hand.cards.diff naturals).Perm hand.cards :=
    List.subperm_append_diff_self_of_count_le fun c _ => hsub.count_le c
  refine ⟨⟨hand.cards.diff naturals, ?_, hperm.nodup_iff.mpr hand.nodup⟩, hperm⟩
  have hlength := hperm.length_eq
  rw [List.length_append, hand.length_eq] at hlength
  omega

/-- **Wilds are worth their best substitution.** When naturals and wilds have a value, there are
five of them and the naturals differ; the hands that come from putting other cards in the place of
the wilds have values that are not above it, and one of them has the same category and the same
tiebreakers. -/
theorem evaluateWithWilds_best_substitution {h : HandRank}
    (hok : evaluateWithWilds naturals wilds = .ok h) :
    naturals.length + wilds = 5 ∧ naturals.Nodup ∧
      (∀ s : Substitution naturals wilds, ∃ h', evaluate s.hand = .ok h' ∧ h' ≤ h) ∧
      ∃ s : Substitution naturals wilds, ∃ h', evaluate s.hand = .ok h' ∧
        h'.category = h.category ∧ h'.tiebreakers = h.tiebreakers := by
  obtain ⟨hsize, hnodup, -⟩ := evaluateWithWilds_eq_ok hok
  refine ⟨hsize, hnodup, fun s => s.exists_evaluate_le hok, ?_⟩
  obtain ⟨hand, hkeep, hmarks⟩ :=
    (reaches_iff hnodup hsize).mp (isGreatest_evaluateWithWilds hok).1
  obtain ⟨s, hperm⟩ := exists_substitution hnodup hsize hkeep
  obtain ⟨h', hok', hle⟩ := s.exists_evaluate_le hok
  -- the hand that shows the value is the one that the substitution makes
  have hreached : Reaches (naturals ++ s.fill) 0 h :=
    reaches_zero_iff.mpr ⟨hand, hperm.symm.subset, hmarks⟩
  have hge : h ≤ h' := by
    rw [Substitution.hand, evaluate_map_natural] at hok'
    exact (isGreatest_evaluateWithWilds hok').2 hreached
  exact ⟨s, h', hok', HandRank.le_antisymm_iff.mp ⟨hle, hge⟩⟩

/-- A pair of aces with three wilds is worth four aces with a king, the best of its
substitutions. -/
theorem evaluateWithWilds_best_substitution_aces :
    evaluateWithWilds [⟨.spades, .ace⟩, ⟨.clubs, .ace⟩] 3 =
        .ok ⟨.fourOfAKind, [.ace, .king], some ⟨.spades, .ace⟩⟩ ∧
      (∀ s : Substitution [⟨.spades, .ace⟩, ⟨.clubs, .ace⟩] 3, ∃ h', evaluate s.hand = .ok h' ∧
        h' ≤ ⟨.fourOfAKind, [.ace, .king], some ⟨.spades, .ace⟩⟩) ∧
      ∃ s : Substitution [⟨.spades, .ace⟩, ⟨.clubs, .ace⟩] 3, ∃ h', evaluate s.hand = .ok h' ∧
        h'.category = .fourOfAKind ∧ h'.tiebreakers = [.ace, .king] :=
  ⟨rfl, (evaluateWithWilds_best_substitution rfl).2.2⟩

end CaliforniaPoker
