import CaliforniaPoker.Proofs.Enumeration
import CaliforniaPoker.Proofs.Pool

/-!
# Why hands and selections are refused

A list of entries that is no hand is refused for its size, or else for the first natural that equals
an earlier one. A selection looks for neither in the pool. It fails with the defect of the first
candidate that is no hand, and this file shows which pools have such a candidate.

## Main results

* `firstRepeat?_eq_some_iff`: the natural that is reported is the first one that equals an earlier
  one.
* `evaluate_eq_error_iff`: when a list of entries is refused, and why.
* `outcome_foldlM_consider_eq_error_iff`: the first candidate that is no hand decides.
* `selectBest_outcome_iff`: when a selection from a pool fails, and why.
-/

namespace CaliforniaPoker

variable {pool entries : List HandCard} {k : Nat} {best : Option BestHand}
  {candidate : List (HandCard × Nat)} {candidates : List (List (HandCard × Nat))} {e : GameError}
  {card : Card}

/-! ### Hands -/

/-- The card that is found is the first one that equals a card before it or one seen earlier. -/
theorem firstRepeat?_eq_some_iff {seen cards : List Card} : firstRepeat? seen cards = some card ↔
    ∃ before after, cards = before ++ card :: after ∧ (card ∈ before ∨ card ∈ seen) ∧
      before.Nodup ∧ ∀ c ∈ before, c ∉ seen := by
  induction cards generalizing seen with
  | nil => simp [firstRepeat?]
  | cons c cards ih =>
    rw [firstRepeat?]
    split_ifs with hc
    · constructor
      · intro h
        obtain rfl := Option.some.inj h
        exact ⟨[], cards, rfl, .inr hc, List.nodup_nil, by simp⟩
      · rintro ⟨before, after, hsplit, -, -, hnew⟩
        cases before with
        | nil => rw [(List.cons.inj hsplit).1]
        | cons c' before =>
          obtain rfl := (List.cons.inj hsplit).1
          exact absurd hc (hnew c List.mem_cons_self)
    · rw [ih]
      constructor
      · rintro ⟨before, after, rfl, hrepeat, hnodup, hnew⟩
        refine ⟨c :: before, after, rfl, ?_, List.nodup_cons.mpr ⟨fun hmem => ?_, hnodup⟩, ?_⟩
        · simpa [or_comm, or_assoc, or_left_comm] using hrepeat
        · exact hnew c hmem List.mem_cons_self
        · rw [List.forall_mem_cons]
          exact ⟨hc, fun c' hc' hseen => hnew c' hc' (List.mem_cons_of_mem c hseen)⟩
      · rintro ⟨before, after, hsplit, hrepeat, hnodup, hnew⟩
        cases before with
        | nil =>
          obtain rfl := (List.cons.inj hsplit).1
          exact absurd (hrepeat.resolve_left List.not_mem_nil) hc
        | cons c' before =>
          obtain ⟨rfl, rfl⟩ := List.cons.inj hsplit
          obtain ⟨hfirst, hnodup⟩ := List.nodup_cons.mp hnodup
          rw [List.forall_mem_cons] at hnew
          refine ⟨before, after, rfl, ?_, hnodup, fun x hx => ?_⟩
          · simpa [or_comm, or_assoc, or_left_comm] using hrepeat
          · rw [List.mem_cons, not_or]
            exact ⟨fun heq => hfirst (heq ▸ hx), hnew.2 x hx⟩

/-- A list of entries is refused when there are not five of them, and otherwise for the first
natural that equals an earlier one. -/
theorem evaluate_eq_error_iff {defect : HandDefect} : evaluate entries = .error defect ↔
    entries.length ≠ handSize ∧ defect = .wrongSize handSize entries.length ∨
      entries.length = handSize ∧ ∃ card,
        firstRepeat? [] (entries.filterMap HandCard.card?) = some card ∧
          defect = .duplicateCard card := by
  rw [evaluate, evaluateWithWilds, length_naturals_add_wilds]
  by_cases hsize : entries.length = handSize
  · rw [if_neg (not_not.mpr hsize)]
    cases firstRepeat? [] (entries.filterMap HandCard.card?) with
    | none => simp [hsize]
    | some card => simp [hsize, eq_comm]
  · rw [if_pos hsize]
    simp [hsize, eq_comm]

/-- A natural for which a list of entries is refused is there twice. -/
theorem two_le_count_of_firstRepeat?
    (h : firstRepeat? [] (entries.filterMap HandCard.card?) = some card) :
    2 ≤ entries.count (.natural card) := by
  obtain ⟨before, after, hsplit, hrepeat, -, -⟩ := firstRepeat?_eq_some_iff.mp h
  have hbefore := List.count_pos_iff.mpr (hrepeat.resolve_right List.not_mem_nil)
  rw [← count_filterMap_card?, hsplit, List.count_append, List.count_cons_self]
  omega

/-! ### Candidates -/

theorem outcome_consider_eq_error_iff : (consider best candidate).outcome = .error e ↔
    ∃ defect, evaluate (candidate.map Prod.fst) = .error defect ∧ e = .malformedHand defect := by
  cases hvalue : evaluate (candidate.map Prod.fst) with
  | ok rank =>
    have hok : (consider best candidate).outcome = .ok (improve best ⟨_, _, rank⟩) :=
      outcome_consider_eq_ok_iff.mpr ⟨_, ⟨rfl, rfl, hvalue⟩, rfl⟩
    simp [hok]
  | error defect =>
    have herror : (consider best candidate).outcome = .error (.malformedHand defect) := by
      rw [consider, hvalue]
      exact Recorded.outcome_bind_of_error rfl
    simp [herror, eq_comm]

/-- The candidates are looked at until one of them is no hand; its defect is reported. -/
theorem outcome_foldlM_consider_eq_error_iff :
    (candidates.foldlM consider best).outcome = .error e ↔
      ∃ before candidate after defect, candidates = before ++ candidate :: after ∧
        (∀ c ∈ before, ∃ rank, evaluate (c.map Prod.fst) = .ok rank) ∧
        evaluate (candidate.map Prod.fst) = .error defect ∧ e = .malformedHand defect := by
  induction candidates generalizing best with
  | nil => simp
  | cons first candidates ih =>
    rw [List.foldlM_cons, Recorded.outcome_bind_eq_error_iff, outcome_consider_eq_error_iff]
    simp only [outcome_consider_eq_ok_iff, ih]
    constructor
    · rintro (⟨defect, hdefect, he⟩ | ⟨_, ⟨hand, hvalued, -⟩, before, candidate, after, defect,
        rfl, hbefore, hdefect, he⟩)
      · exact ⟨[], first, candidates, defect, rfl, by simp, hdefect, he⟩
      · refine ⟨first :: before, candidate, after, defect, rfl, ?_, hdefect, he⟩
        exact List.forall_mem_cons.mpr ⟨⟨hand.rank, hvalued.cards_eq ▸ hvalued.evaluate_eq⟩, hbefore⟩
    · rintro ⟨before, candidate, after, defect, hsplit, hbefore, hdefect, he⟩
      cases before with
      | nil =>
        obtain ⟨rfl, rfl⟩ := List.cons.inj hsplit
        exact .inl ⟨defect, hdefect, he⟩
      | cons _ before =>
        obtain ⟨rfl, rfl⟩ := List.cons.inj hsplit
        obtain ⟨⟨rank, hrank⟩, hbefore⟩ := List.forall_mem_cons.mp hbefore
        exact .inr ⟨_, ⟨⟨_, _, rank⟩, ⟨rfl, rfl, hrank⟩, rfl⟩, before, candidate, after, defect, rfl,
          hbefore, hdefect, he⟩

/-- A selection of no more entries than there are fails with the defect of a candidate. -/
theorem exists_candidate_of_selectBest_eq_error (hk : k ≤ pool.length)
    (h : (selectBest pool k).outcome = .error e) :
    ∃ indices cards defect, IsChoice pool indices cards ∧ indices.length = k ∧
      evaluate cards = .error defect ∧ e = .malformedHand defect := by
  have hsearch := h
  rw [selectBest, if_neg (Nat.not_lt.mpr hk), foldChooseM_eq_foldlM,
    Recorded.outcome_bind_eq_error_iff] at hsearch
  rcases hsearch with hfold | ⟨best, hfold, -⟩
  · obtain ⟨before, candidate, after, defect, hsplit, -, hdefect, he⟩ :=
      outcome_foldlM_consider_eq_error_iff.mp hfold
    have hmem : candidate ∈ choose k pool.zipIdx :=
      hsplit ▸ List.mem_append_right _ List.mem_cons_self
    obtain ⟨hchoice, hlength⟩ := mem_choose_zipIdx_iff.mp hmem
    exact ⟨_, _, defect, hchoice, by rw [List.length_map, hlength], hdefect, he⟩
  · -- when all candidates are hands, one of them is selected
    obtain ⟨hands, hall, -⟩ := outcome_foldlM_consider_eq_ok_iff.mp hfold
    obtain ⟨b, hok⟩ := exists_selectBest hk fun indices cards hchoice hlength => by
      obtain ⟨hand, -, hvalued⟩ := exists_of_mem_left hall (hchoice.zip_mem_choose hlength)
      have hcards : hand.cards = cards := by
        rw [hvalued.cards_eq, List.map_fst_zip hchoice.length_eq.ge]
      exact ⟨hand.rank, hcards ▸ hvalued.evaluate_eq⟩
    rw [hok] at h
    cases h

/-! ### Selections -/

theorem outcome_selectBest_of_lt (hk : pool.length < k) :
    (selectBest pool k).outcome = .error (.subsetTooLarge k pool.length) := by
  rw [selectBest, if_pos hk, Recorded.outcome_fail]

/-- A selection of another number of entries than make up a hand fails for this number. -/
theorem outcome_selectBest_of_ne (hk : k ≤ pool.length) (hne : k ≠ handSize) :
    (selectBest pool k).outcome = .error (.malformedHand (.wrongSize handSize k)) := by
  cases hselect : (selectBest pool k).outcome with
  | ok b =>
    obtain ⟨hchoice, hlength, hvalue⟩ := selectBest_isChoice hselect
    rw [hchoice.length_eq, length_of_evaluate_eq_ok hvalue] at hlength
    exact absurd hlength.symm hne
  | error e =>
    obtain ⟨indices, cards, defect, hchoice, hlength, hdefect, rfl⟩ :=
      exists_candidate_of_selectBest_eq_error hk hselect
    rw [hchoice.length_eq] at hlength
    rcases evaluate_eq_error_iff.mp hdefect with ⟨-, rfl⟩ | ⟨hsize, -⟩
    · rw [hlength]
    · exact absurd (hlength.symm.trans hsize) hne

/-- A selection of five entries that fails names a natural that the pool has twice. -/
theorem exists_repeated_of_selectBest_eq_error (hsize : handSize ≤ pool.length)
    (h : (selectBest pool handSize).outcome = .error e) :
    ∃ card, 2 ≤ pool.count (.natural card) ∧ e = .malformedHand (.duplicateCard card) := by
  obtain ⟨indices, cards, defect, hchoice, hlength, hdefect, rfl⟩ :=
    exists_candidate_of_selectBest_eq_error hsize h
  rw [hchoice.length_eq] at hlength
  rcases evaluate_eq_error_iff.mp hdefect with ⟨hne, -⟩ | ⟨-, card, hcard, rfl⟩
  · exact absurd hlength hne
  · exact ⟨card, (two_le_count_of_firstRepeat? hcard).trans (hchoice.sublist.count_le _), rfl⟩

/-- A selection comes to one of four ends. -/
theorem selectBest_cases (pool : List HandCard) (k : Nat) :
    pool.length < k ∧ (selectBest pool k).outcome = .error (.subsetTooLarge k pool.length) ∨
      (k ≤ pool.length ∧ k ≠ 5) ∧
        (selectBest pool k).outcome = .error (.malformedHand (.wrongSize 5 k)) ∨
      (k ≤ pool.length ∧ k = 5) ∧ (∃ card, 2 ≤ pool.count (.natural card) ∧
        (selectBest pool k).outcome = .error (.malformedHand (.duplicateCard card))) ∨
      (k ≤ pool.length ∧ k = 5) ∧ (∀ card, pool.count (.natural card) < 2) ∧
        ∃ b, (selectBest pool k).outcome = .ok b := by
  rcases Nat.lt_or_ge pool.length k with hk | hk
  · exact .inl ⟨hk, outcome_selectBest_of_lt hk⟩
  by_cases hfive : k = 5
  · subst hfive
    cases hselect : (selectBest pool 5).outcome with
    | ok b =>
      have hnodup := (exists_selectBest_eq_ok_iff.mp ⟨b, hselect⟩).2
      refine .inr (.inr (.inr ⟨⟨hk, rfl⟩, fun card => ?_, b, rfl⟩))
      rw [← count_filterMap_card?]
      exact Nat.lt_succ_of_le (List.nodup_iff_count_le_one.mp hnodup card)
    | error e =>
      obtain ⟨card, hcard, rfl⟩ := exists_repeated_of_selectBest_eq_error hk hselect
      exact .inr (.inr (.inl ⟨⟨hk, rfl⟩, card, hcard, rfl⟩))
  · exact .inr (.inl ⟨⟨hk, hfive⟩, outcome_selectBest_of_ne hk hfive⟩)

/-! ### Positions -/

/-- The enumeration of index lists for a pool gives out the positions of the candidates. -/
theorem take_ofSize_length (pool : List HandCard) (k count : Nat) :
    (Combinations.ofSize pool.length k).take count =
      (List.range count).map (((choose k pool.zipIdx).map (List.map Prod.snd))[·]?) := by
  rw [map_snd_choose_zipIdx, Combinations.take_ofSize]

/-- Every position of a candidate is one of the pool and holds the entry that goes with it. -/
theorem getElem?_of_mem_candidate (hcandidate : candidate ∈ choose k pool.zipIdx)
    {entry : HandCard × Nat} (hentry : entry ∈ candidate) :
    entry.2 < pool.length ∧ pool[entry.2]? = some entry.1 := by
  have hmem := (mem_choose_iff.mp hcandidate).1.subset hentry
  have hholds := List.mem_zipIdx_iff_getElem?.mp hmem
  exact ⟨(List.getElem?_eq_some_iff.mp hholds).1, hholds⟩

/-- **When a selection fails.** A selection of more entries than the pool has is refused as such;
one of another number than five is refused for this number; one of five is refused for a natural
that the pool has at least twice, when there is one; every other selection succeeds. There are no
other errors. The candidates have the positions that the enumeration of index lists gives out, all
of them positions of the pool with the entries at them. -/
theorem selectBest_outcome_iff (pool : List HandCard) (k : Nat) :
    ((selectBest pool k).outcome = .error (.subsetTooLarge k pool.length) ↔ pool.length < k) ∧
      ((selectBest pool k).outcome = .error (.malformedHand (.wrongSize 5 k)) ↔
        k ≤ pool.length ∧ k ≠ 5) ∧
      ((∃ card, 2 ≤ pool.count (.natural card) ∧
          (selectBest pool k).outcome = .error (.malformedHand (.duplicateCard card))) ↔
        k ≤ pool.length ∧ k = 5 ∧ ∃ card, 2 ≤ pool.count (.natural card)) ∧
      ((∃ b, (selectBest pool k).outcome = .ok b) ↔
        k ≤ pool.length ∧ k = 5 ∧ ∀ card, pool.count (.natural card) < 2) ∧
      (∀ e, (selectBest pool k).outcome = .error e → e = .subsetTooLarge k pool.length ∨
        e = .malformedHand (.wrongSize 5 k) ∨
          ∃ card, 2 ≤ pool.count (.natural card) ∧ e = .malformedHand (.duplicateCard card)) ∧
      (∀ count, (Combinations.ofSize pool.length k).take count =
        (List.range count).map (((choose k pool.zipIdx).map (List.map Prod.snd))[·]?)) ∧
      ∀ candidate ∈ choose k pool.zipIdx, ∀ entry ∈ candidate,
        entry.2 < pool.length ∧ pool[entry.2]? = some entry.1 := by
  have hpositions := take_ofSize_length pool k
  have hholds : ∀ candidate ∈ choose k pool.zipIdx, ∀ entry ∈ candidate,
      entry.2 < pool.length ∧ pool[entry.2]? = some entry.1 :=
    fun _ hmem _ => getElem?_of_mem_candidate hmem
  rcases selectBest_cases pool k with ⟨hk, houtcome⟩ | ⟨⟨hk, hfive⟩, houtcome⟩ |
    ⟨⟨hk, rfl⟩, card, hcard, houtcome⟩ | ⟨⟨hk, rfl⟩, hcount, b, houtcome⟩ <;> rw [houtcome]
  · have hnot := Nat.not_le.mpr hk
    exact ⟨iff_of_true rfl hk, iff_of_false nofun fun h => hnot h.1,
      iff_of_false (fun ⟨_, _, h⟩ => nomatch h) fun h => hnot h.1,
      iff_of_false nofun fun h => hnot h.1,
      fun e he => .inl (Except.error.inj he).symm, hpositions, hholds⟩
  · exact ⟨iff_of_false nofun (Nat.not_lt.mpr hk), iff_of_true rfl ⟨hk, hfive⟩,
      iff_of_false (fun ⟨_, _, h⟩ => nomatch h) fun h => hfive h.2.1,
      iff_of_false nofun fun h => hfive h.2.1,
      fun e he => .inr (.inl (Except.error.inj he).symm), hpositions, hholds⟩
  · exact ⟨iff_of_false nofun (Nat.not_lt.mpr hk), iff_of_false nofun fun h => h.2 rfl,
      iff_of_true ⟨card, hcard, rfl⟩ ⟨hk, rfl, card, hcard⟩,
      iff_of_false nofun fun h => Nat.not_lt.mpr hcard (h.2.2 card),
      fun e he => .inr (.inr ⟨card, hcard, (Except.error.inj he).symm⟩), hpositions, hholds⟩
  · exact ⟨iff_of_false nofun (Nat.not_lt.mpr hk), iff_of_false nofun fun h => h.2 rfl,
      iff_of_false (fun ⟨_, _, h⟩ => nomatch h) fun ⟨_, _, card, hcard⟩ =>
        Nat.not_lt.mpr hcard (hcount card),
      iff_of_true ⟨b, rfl⟩ ⟨hk, rfl, hcount⟩, nofun, hpositions, hholds⟩

end CaliforniaPoker
