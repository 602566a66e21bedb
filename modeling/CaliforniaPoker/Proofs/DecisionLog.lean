import CaliforniaPoker.Proofs.Binomial
import CaliforniaPoker.Proofs.DiscardSearch
import CaliforniaPoker.Proofs.Refusal
import CaliforniaPoker.Proofs.Text.Numeral

/-!
# The searches are recorded exactly

The selection of a hand and the search for discards record every attempt and then what they chose.
This file shows that a record tells what happened and nothing else. The candidates of a selection
are recorded in their order until one of them is no hand; the choice is recorded exactly when there
is one. Of the discard sets the first is scored ahead of the others, and is still recorded once, in
its place.

## Main definitions

* `IsValuedInTurn`: the hands of the candidates before the first that is none.
* `Event.line`: what is written down for an event.

## Main results

* `exists_events_foldlM_consider`: the events of the candidates.
* `exists_events_selectBest`: the events of a selection.
* `events_bestDiscard_of_length_eq`, `events_bestDiscard_of_length_ne`: those of a search for
  discards.
* `Event.indicesText_injective`: positions can be told from what is written of them.
* `searchLogs_exact`: the lines that both searches write.
-/

namespace CaliforniaPoker

/-- The level of an event and its named texts. -/
def Event.line (e : Event) : Level × List (String × String) := (e.level, e.fields)

/-! ### Selections -/

section Selection

variable {pool : List HandCard} {k : Nat} {best : Option BestHand} {hand : BestHand}
  {candidate : List (HandCard × Nat)} {candidates : List (List (HandCard × Nat))}

/-- The hands that candidates are, in their order, up to the first candidate that is no hand. -/
def IsValuedInTurn (candidates : List (List (HandCard × Nat))) (hands : List BestHand) : Prop :=
  ∃ tried untried, candidates = tried ++ untried ∧ List.Forall₂ IsValued tried hands ∧
    ∀ refused ∈ untried.head?, ∃ defect, evaluate (refused.map Prod.fst) = .error defect

theorem isValuedInTurn_nil : IsValuedInTurn [] [] := ⟨[], [], rfl, .nil, by simp⟩

theorem IsValuedInTurn.cons {hands : List BestHand} (h : IsValued candidate hand)
    (hrest : IsValuedInTurn candidates hands) :
    IsValuedInTurn (candidate :: candidates) (hand :: hands) := by
  obtain ⟨tried, untried, rfl, hall, hrefused⟩ := hrest
  exact ⟨candidate :: tried, untried, rfl, .cons h hall, hrefused⟩

/-- No candidate counts from the first one on that is no hand. -/
theorem isValuedInTurn_of_error {defect : HandDefect}
    (h : evaluate (candidate.map Prod.fst) = .error defect) :
    IsValuedInTurn (candidate :: candidates) [] := by
  refine ⟨[], candidate :: candidates, rfl, .nil, fun refused hrefused => ⟨defect, ?_⟩⟩
  obtain rfl := Option.some.inj hrefused
  exact h

/-- A candidate that is a hand is recorded with its category. -/
theorem events_consider_of_isValued (h : IsValued candidate hand) :
    (consider best candidate).events = [.candidate hand.indices hand.rank.category] := by
  obtain ⟨hindices, hcards, hvalue⟩ := h
  have hok : (Recorded.ofExcept ((evaluate (candidate.map Prod.fst)).mapError
      GameError.malformedHand)).outcome = .ok hand.rank := by
    rw [Recorded.outcome_ofExcept, ← hcards, hvalue, Except.mapError]
  rw [consider, Recorded.events_bind_of_ok hok,
    Recorded.events_bind_of_ok (Recorded.outcome_record _), hindices]
  rfl

/-- A candidate that is no hand is not recorded. -/
theorem events_consider_of_error {defect : HandDefect}
    (h : evaluate (candidate.map Prod.fst) = .error defect) :
    (consider best candidate).events = [] := by
  have herror : (Recorded.ofExcept ((evaluate (candidate.map Prod.fst)).mapError
      GameError.malformedHand)).outcome = .error (.malformedHand defect) := by
    rw [Recorded.outcome_ofExcept, h, Except.mapError]
  rw [consider, Recorded.events_bind_of_error herror, Recorded.events_ofExcept]

/-- Looking at candidates one after the other records them up to the first that is no hand. -/
theorem exists_events_foldlM_consider (candidates : List (List (HandCard × Nat)))
    (best : Option BestHand) : ∃ hands, IsValuedInTurn candidates hands ∧
      (candidates.foldlM consider best).events =
        hands.map fun hand => .candidate hand.indices hand.rank.category := by
  induction candidates generalizing best with
  | nil => exact ⟨[], isValuedInTurn_nil, rfl⟩
  | cons candidate candidates ih =>
    rw [List.foldlM_cons]
    cases hvalue : evaluate (candidate.map Prod.fst) with
    | ok rank =>
      have hvalued : IsValued candidate ⟨_, _, rank⟩ := ⟨rfl, rfl, hvalue⟩
      obtain ⟨hands, hhands, hevents⟩ := ih (improve best ⟨_, _, rank⟩)
      refine ⟨_ :: hands, hhands.cons hvalued, ?_⟩
      rw [Recorded.events_bind_of_ok (outcome_consider_eq_ok_iff.mpr ⟨_, hvalued, rfl⟩),
        events_consider_of_isValued hvalued, hevents, List.map_cons, List.singleton_append]
    | error defect =>
      refine ⟨[], isValuedInTurn_of_error hvalue, ?_⟩
      have herror : (consider best candidate).outcome = .error (.malformedHand defect) :=
        outcome_consider_eq_error_iff.mpr ⟨defect, hvalue, rfl⟩
      rw [Recorded.events_bind_of_error herror, events_consider_of_error hvalue, List.map_nil]

theorem choose_eq_nil_of_lt {α : Type} {xs : List α} (h : xs.length < k) : choose k xs = [] := by
  rw [List.eq_nil_iff_forall_not_mem]
  intro ys hys
  obtain ⟨hsub, rfl⟩ := mem_choose_iff.mp hys
  exact Nat.not_lt.mpr hsub.length_le h

/-- A selection records its candidates up to the first that is no hand, and its choice if it comes
to one. -/
theorem exists_events_selectBest (pool : List HandCard) (k : Nat) :
    ∃ hands, IsValuedInTurn (choose k pool.zipIdx) hands ∧ (selectBest pool k).events =
      hands.map (fun hand => .candidate hand.indices hand.rank.category) ++
        (selectBest pool k).outcome.toOption.toList.map fun b => .selected b.indices b.rank := by
  rw [selectBest]
  split_ifs with hk
  · refine ⟨[], ?_, rfl⟩
    rw [choose_eq_nil_of_lt (by rwa [List.length_zipIdx])]
    exact isValuedInTurn_nil
  · rw [foldChooseM_eq_foldlM]
    simp only [List.reverse_nil, List.nil_append]
    obtain ⟨hands, hhands, hevents⟩ := exists_events_foldlM_consider (choose k pool.zipIdx) none
    refine ⟨hands, hhands, ?_⟩
    rw [← hevents]
    cases hsearch : ((choose k pool.zipIdx).foldlM consider none).outcome with
    | error e =>
      rw [Recorded.events_bind_of_error hsearch, Recorded.outcome_bind_of_error hsearch]
      simp [Except.toOption]
    | ok best =>
      rw [Recorded.events_bind_of_ok hsearch, Recorded.outcome_bind_of_ok hsearch]
      cases best <;> rfl

end Selection

/-! ### Searches for discards -/

section Discards

variable {w : Weights} {pool : List Card}

/-- A pool that does not have eight cards is refused without a record. -/
theorem events_bestDiscard_of_length_ne (hpool : pool.length ≠ poolSize) :
    (bestDiscard w pool).events = [] := by
  rw [bestDiscard, if_pos hpool, Recorded.events_fail]

theorem events_scoreDiscard (w : Weights) (pool : List Card) (d : DiscardChoice) :
    (scoreDiscard w pool d).events = [.scored d.indices (keepScore w (d.kept pool))] := rfl

/-- What the search ends with is a discard set with its own score. -/
theorem exists_firstBest_eq_scored (w : Weights) (pool : List Card) :
    ∃ d, firstBest (scored w pool .lowest)
      ((discardChoices.filter (· ≠ .lowest)).map (scored w pool)) = scored w pool d := by
  obtain ⟨before, after, hsplit, -, -⟩ := exists_split_of_firstBest (scored w pool .lowest)
    ((discardChoices.filter (· ≠ .lowest)).map (scored w pool))
  rw [← List.map_cons] at hsplit
  obtain ⟨d, -, hd⟩ := List.mem_map.mp (hsplit ▸ List.mem_append_right before List.mem_cons_self)
  exact ⟨d, hd.symm⟩

/-- All discard sets are recorded with their scores, in their order, and then the one with which the
search ends. -/
theorem events_bestDiscard_of_length_eq (hpool : pool.length = poolSize) :
    ∃ d, (bestDiscard w pool).outcome = .ok d ∧ (bestDiscard w pool).events =
      discardChoices.map (fun d' => .scored d'.indices (keepScore w (d'.kept pool))) ++
        [.discarded d.indices d.keepIndices (keepScore w (d.kept pool))] := by
  obtain ⟨d, hd⟩ := exists_firstBest_eq_scored w pool
  refine ⟨d, by rw [outcome_bestDiscard_of_length_eq hpool, hd, scored], ?_⟩
  rw [bestDiscard, if_neg (not_not.mpr hpool),
    Recorded.events_bind_of_ok (outcome_scoreDiscard w pool _),
    Recorded.events_bind_of_ok (Recorded.outcome_mapM (outcome_scoreDiscard w pool) _),
    Recorded.events_mapM (outcome_scoreDiscard w pool), hd]
  simp only [events_scoreDiscard, ← List.map_eq_flatMap]
  -- the discard set that was scored ahead of the others is the first of all
  conv_rhs => rw [← lowest_cons_filter_ne]
  rfl

theorem length_discardChoices : discardChoices.length = 70 := by
  rw [← List.length_map (f := DiscardChoice.indices), map_indices_discardChoices,
    Combinations.length_choose_range]
  rfl

end Discards

/-! ### What is written -/

/-- The blank behind a comma may as well begin the entry that follows. -/
theorem intercalate_comma_blank (first : List Char) (rest : List (List Char)) :
    [',', ' '].intercalate (first :: rest) = [','].intercalate (first :: rest.map (' ' :: ·)) := by
  induction rest generalizing first with
  | nil => rfl
  | cons next rest ih =>
    rw [List.intercalate_cons_cons, ih, List.map_cons, List.intercalate_cons_cons]
    cases rest <;> simp [List.intercalate_cons_cons]

/-- Split at its commas, a line of entries falls into the first entry and the others with a blank
before them. -/
theorem splitOn_toList_intercalate {first : String} {rest : List String}
    (h : ∀ entry ∈ first :: rest, entry ≠ "" ∧ ',' ∉ entry.toList) :
    (", ".intercalate (first :: rest)).toList.splitOn ',' =
      first.toList :: (rest.map String.toList).map (' ' :: ·) := by
  obtain ⟨⟨-, hfirst⟩, hrest⟩ := List.forall_mem_cons.mp h
  have hline : (", ".intercalate (first :: rest)).toList =
      [','].intercalate (first.toList :: (rest.map String.toList).map (' ' :: ·)) := by
    rw [String.toList_intercalate]
    exact intercalate_comma_blank _ _
  rw [hline, List.splitOn_intercalate ',' ?_ (List.cons_ne_nil _ _)]
  simpa [hfirst] using fun entry hentry => (hrest entry hentry).2

/-- Entries that are not empty and have no comma in them are determined by the text of their
list. -/
theorem eq_of_bracketed_eq {entries entries' : List String}
    (h : ∀ entry ∈ entries, entry ≠ "" ∧ ',' ∉ entry.toList)
    (h' : ∀ entry ∈ entries', entry ≠ "" ∧ ',' ∉ entry.toList)
    (heq : bracketed entries = bracketed entries') : entries = entries' := by
  rw [bracketed, bracketed, String.append_left_inj, String.append_right_inj] at heq
  have hsplit := congrArg (fun line : String => line.toList.splitOn ',') heq
  cases entries with
  | nil =>
    cases entries' with
    | nil => rfl
    | cons first' rest' =>
      have hempty := (List.cons.inj (hsplit.trans (splitOn_toList_intercalate h'))).1
      exact absurd (String.toList_eq_nil_iff.mp hempty.symm) (h' first' List.mem_cons_self).1
  | cons first rest =>
    have hsplit := (splitOn_toList_intercalate h).symm.trans hsplit
    cases entries' with
    | nil =>
      exact absurd (String.toList_eq_nil_iff.mp (List.cons.inj hsplit).1)
        (h first List.mem_cons_self).1
    | cons first' rest' =>
      obtain ⟨hfirst, hrest⟩ := List.cons.inj (hsplit.trans (splitOn_toList_intercalate h'))
      rw [List.map_inj_right fun _ _ => List.tail_eq_of_cons_eq,
        List.map_inj_right fun _ _ => String.toList_inj.mp] at hrest
      rw [String.toList_inj.mp hfirst, hrest]

/-- What is written of positions tells which they are. -/
theorem Event.indicesText_injective : Function.Injective Event.indicesText := by
  have hentry (indices : List Nat) :
      ∀ entry ∈ indices.map Nat.repr, entry ≠ "" ∧ ',' ∉ entry.toList := by
    refine List.forall_mem_map.mpr fun i _ => ?_
    have hdigits := Numeral.isDigits_toDigits i
    rw [← Nat.toList_repr] at hdigits
    exact ⟨fun hempty => hdigits.1 (String.toList_eq_nil_iff.mpr hempty),
      fun hcomma => absurd (hdigits.2 _ hcomma) (by decide)⟩
  have hrepr (m n : Nat) (h : m.repr = n.repr) : m = n := by
    have hvalue := congrArg (fun text : String => Nat.ofDigitChars 10 text.toList 0) h
    simpa only [Nat.toList_repr, Nat.ofDigitChars_ten_toDigits] using hvalue
  intro indices indices' heq
  exact (List.map_inj_right hrepr).mp (eq_of_bracketed_eq (hentry _) (hentry _) heq)

/-- **The record of a search is exact.** A selection writes a line at trace level for each candidate
in the lexicographic order of positions, with its positions and the category of its value, up to and
without the first candidate that has no value. A line at debug level follows, with the positions
and the description of the selected hand, exactly when a hand is selected. The positions of the
candidates are what the enumeration of index lists gives out. The search for discards among eight
cards writes a line at trace level for each of the seventy discard sets in ascending order, with the
score of the cards that it leaves, and then one at debug level with the chosen discard set, what it
keeps and its score, which is the greatest. With another number of cards it writes nothing. Different
positions are written differently. -/
theorem searchLogs_exact :
    (∀ (pool : List HandCard) (k : Nat),
      (∃ hands, IsValuedInTurn (choose k pool.zipIdx) hands ∧
        (selectBest pool k).events.map Event.line =
          hands.map (fun hand => (.trace, [("message", "evaluated candidate"),
            ("indices", Event.indicesText hand.indices),
            ("category", hand.rank.category.name)])) ++
          (selectBest pool k).outcome.toOption.toList.map fun b =>
            (.debug, [("message", "selected best hand"),
              ("indices", Event.indicesText b.indices), ("hand", b.rank.describe)])) ∧
      ∀ count, (Combinations.ofSize pool.length k).take count =
        (List.range count).map (((choose k pool.zipIdx).map (List.map Prod.snd))[·]?)) ∧
    (∀ (w : Weights) (pool : List Card), pool.length = 8 →
      ∃ d, (bestDiscard w pool).outcome = .ok d ∧
        (bestDiscard w pool).events.map Event.line =
          discardChoices.map (fun d' => (.trace, [("message", "scored keep set"),
            ("discard", Event.indicesText d'.indices),
            ("score", (keepScore w (d'.kept pool)).repr)])) ++
          [(.debug, [("message", "chose discards"), ("discard", Event.indicesText d.indices),
            ("keep", Event.indicesText d.keepIndices),
            ("score", (keepScore w (d.kept pool)).repr)])] ∧
        ∀ d' : DiscardChoice, IsChoice pool d'.keepIndices (d'.kept pool) ∧
          keepScore w (d'.kept pool) ≤ keepScore w (d.kept pool)) ∧
    (∀ (w : Weights) (pool : List Card), pool.length ≠ 8 → (bestDiscard w pool).events = []) ∧
    discardChoices.length = 70 ∧ (∀ d, d ∈ discardChoices) ∧
    (discardChoices.Pairwise fun d d' => d.indices < d'.indices) ∧
    Function.Injective Event.indicesText := by
  refine ⟨fun pool k => ⟨?_, take_ofSize_length pool k⟩, fun w pool hpool => ?_,
    fun w pool => events_bestDiscard_of_length_ne, length_discardChoices, mem_discardChoices,
    pairwise_discardChoices, Event.indicesText_injective⟩
  · obtain ⟨hands, hhands, hevents⟩ := exists_events_selectBest pool k
    refine ⟨hands, hhands, ?_⟩
    rw [hevents, List.map_append, List.map_map, List.map_map]
    rfl
  · obtain ⟨d, hok, hevents⟩ := events_bestDiscard_of_length_eq (w := w) hpool
    obtain ⟨best, hbest, hgreatest⟩ := exists_bestDiscard w hpool
    obtain rfl : best = d := Except.ok.inj (hbest.symm.trans hok)
    refine ⟨best, hok, ?_, fun d' => ⟨d'.isChoice_kept hpool, (hgreatest d').1⟩⟩
    rw [hevents, List.map_append, List.map_map]
    rfl

/-- An ace that repeats stops the record of a selection after the royal flush that comes first,
without a choice. A search for discards among eight nines writes seventy-one lines. -/
theorem searchLogs_exact_repeated :
    (selectBest [.natural ⟨.spades, .ace⟩, .natural ⟨.spades, .king⟩, .natural ⟨.spades, .queen⟩,
        .natural ⟨.spades, .jack⟩, .natural ⟨.spades, .ten⟩, .natural ⟨.spades, .ace⟩] 5).events =
        [.candidate [0, 1, 2, 3, 4] .royalFlush] ∧
      (List.replicate 8 (⟨.spades, .nine⟩ : Card)).length = 8 ∧
      (bestDiscard defaultWeights (List.replicate 8 ⟨.spades, .nine⟩)).events.length = 71 := by
  refine ⟨rfl, rfl, ?_⟩
  obtain ⟨-, hdiscards, -, hseventy, -, -⟩ := searchLogs_exact
  obtain ⟨d, -, hlines, -⟩ :=
    hdiscards defaultWeights (List.replicate 8 ⟨.spades, .nine⟩) (List.length_replicate ..)
  rw [← List.length_map (f := Event.line), hlines, List.length_append, List.length_map, hseventy]
  rfl

end CaliforniaPoker
