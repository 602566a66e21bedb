import CaliforniaPoker.Proofs.Round
import CaliforniaPoker.Proofs.Seats
import CaliforniaPoker.Table

/-!
# No card is lost or dealt twice at a table

Whatever steps are taken with a deck, its cards are those of a full deck, and those that it counts
as dealt are the ones that the steps handed out since the cards were last gathered. This file shows
what one step keeps and derives it for all decks that steps lead to, rounds of any players included.
With sixteen different cards left a round of two opponents cannot fail.

## Main definitions

* `Step.needs`, `Step.gathers`: what a step does to the cards of a deck.
* `StepOutcome.handedOut`, `StepOutcome.IsRefused`: what a step hands out, and whether it does.
* `Deck.Reachable`: the decks that steps lead to, with the cards handed out.
* `Table.tally`: the cards that a list of steps hands out.

## Main results

* `Table.perform_of_gathers`, `Table.perform_of_lt`, `Table.perform_of_le`: what one step does.
* `Deck.Reachable.run`: a list of steps leads to a reachable deck.
* `Deck.Reachable.isAccountable`: what all steps keep.
* `Deck.Reachable.cards_conserved`: the cards and the seed of a deck, and its refusals.
* `Deck.Reachable.round_sound`: every round from a deck with sixteen cards left succeeds.
-/

namespace CaliforniaPoker

variable {deck : Deck} {step : Step}

/-! ### One step -/

/-- Whether a step gathers all cards. -/
def Step.gathers : Step → Bool
  | .shuffle | .reset => true
  | .seed | .dealCard | .dealPool _ | .dealPools | .dealt | .playRound => false

theorem Step.gathers_eq_true_iff : step.gathers = true ↔ step = .shuffle ∨ step = .reset := by
  cases step <;> simp [gathers]

/-- The number of cards that a step takes from a deck. -/
def Step.needs : Step → Nat
  | .dealCard => 1
  | .dealPool count => count
  | .dealPools | .playRound => 2 * poolSize
  | .shuffle | .reset | .seed | .dealt => 0

/-- The cards that a step handed out, in order. Those of a round are the pools that the players were
dealt, whether or not they played on. -/
def StepOutcome.handedOut : StepOutcome → List Card
  | .card c => c.toList
  | .pool cards => cards.getD []
  | .pools (some (first, second)) => first ++ second
  | .round ⟨_, some (first, second)⟩ => first ++ second
  | _ => []

/-- A step was to hand out cards and refused to. -/
def StepOutcome.IsRefused : StepOutcome → Prop
  | .card c => c = none
  | .pool cards => cards = none
  | .pools cards => cards = none
  | .round outcome => outcome.pools = none
  | .done | .seed _ | .dealt _ => False

namespace Table

variable (t : Table)

/-- A step that gathers the cards leaves a full deck in some order. -/
theorem perform_of_gathers (deck : Deck) (hstep : step.gathers = true) :
    ∃ (undealt : List Card) (stream : Keystream),
      t.perform deck step = (.done, { dealt := [], undealt, stream }) ∧
        undealt.Perm fullDeck ∧ stream.seed = deck.seed := by
  obtain rfl | rfl := Step.gathers_eq_true_iff.mp hstep
  · obtain ⟨undealt, stream, hdeck, hperm, hseed⟩ := deck.exists_shuffle
    exact ⟨undealt, stream, by rw [perform, hdeck], hperm, hseed⟩
  · exact ⟨fullDeck, deck.stream, rfl, .refl _, rfl⟩

/-- A step that needs more cards than there are is refused and leaves the deck as it is. -/
theorem perform_of_lt (h : deck.remaining < step.needs) :
    ∃ outcome : StepOutcome, t.perform deck step = (outcome, deck) ∧ outcome.IsRefused ∧
      outcome.handedOut = [] := by
  cases step with
  | dealCard => exact ⟨.card none, by rw [perform, Deck.dealCard_of_lt h], rfl, rfl⟩
  | dealPool count =>
    have hcount : deck.remaining < count := h
    exact ⟨.pool none, by rw [perform, Deck.dealPool_of_lt hcount], rfl, rfl⟩
  | dealPools => exact ⟨.pools none, by rw [perform, Deck.dealPools_of_lt h], rfl, rfl⟩
  | playRound =>
    exact ⟨.round ⟨.fail _, none⟩,
      by rw [perform, playRound_of_lt t.first t.second h, Deck.dealPools_of_lt h], rfl, rfl⟩
  | shuffle | reset | seed | dealt => exact absurd h (Nat.not_lt_zero _)

/-- A step for which there are enough cards hands out the next ones. -/
theorem perform_of_le (hstep : step.gathers = false) (h : step.needs ≤ deck.remaining) :
    ∃ outcome : StepOutcome, t.perform deck step = (outcome, deck.advance step.needs) ∧
      ¬ outcome.IsRefused ∧ outcome.handedOut = deck.undealt.take step.needs := by
  cases step with
  | dealCard =>
    obtain ⟨card, hdeal, hcard⟩ := Deck.dealCard_of_le h
    exact ⟨.card (some card), by rw [perform, hdeal]; rfl, Option.some_ne_none _, hcard.symm⟩
  | dealPool count =>
    have hcount : count ≤ deck.remaining := h
    exact ⟨.pool (some (deck.undealt.take count)), by rw [perform, Deck.dealPool_of_le hcount]; rfl,
      Option.some_ne_none _, rfl⟩
  | dealPools =>
    refine ⟨.pools (some (deck.undealt.take poolSize, (deck.undealt.drop poolSize).take poolSize)),
      by rw [perform, Deck.dealPools_of_le h]; rfl, Option.some_ne_none _, ?_⟩
    exact List.take_add.symm
  | playRound =>
    refine ⟨.round ⟨(playRound t.first t.second deck).1,
        some (deck.undealt.take poolSize, (deck.undealt.drop poolSize).take poolSize)⟩,
      ?_, Option.some_ne_none _, List.take_add.symm⟩
    rw [perform, playRound_of_le t.first t.second h, Deck.dealPools_of_le h]
    rfl
  | seed => exact ⟨.seed deck.seed, congrArg (Prod.mk _) deck.advance_zero.symm, id, rfl⟩
  | dealt => exact ⟨.dealt deck.dealt, congrArg (Prod.mk _) deck.advance_zero.symm, id, rfl⟩
  | shuffle | reset => exact nomatch hstep

/-- Steps are refused when they need more cards than there are. -/
theorem isRefused_perform_iff :
    (t.perform deck step).1.IsRefused ↔ deck.remaining < step.needs := by
  constructor
  · intro hrefused
    by_contra hle
    cases hstep : step.gathers with
    | true =>
      obtain ⟨_, _, hperform, -, -⟩ := t.perform_of_gathers deck hstep
      rw [hperform] at hrefused
      exact hrefused
    | false =>
      obtain ⟨_, hperform, hdone, -⟩ := t.perform_of_le hstep (Nat.le_of_not_lt hle)
      rw [hperform] at hrefused
      exact hdone hrefused
  · intro hlt
    obtain ⟨_, hperform, hrefused, -⟩ := t.perform_of_lt hlt
    rwa [hperform]

/-- A round that comes to its report hands out the pools of the report. -/
theorem handedOut_perform_playRound {report : RoundReport}
    (hok : (playRound t.first t.second deck).1.outcome = .ok report) :
    (t.perform deck .playRound).1.handedOut = report.first.dealt ++ report.second.dealt := by
  rcases Nat.lt_or_ge deck.remaining Step.playRound.needs with hlt | hle
  · rw [playRound_of_lt t.first t.second hlt] at hok
    cases hok
  · obtain ⟨_, hperform, -, hout⟩ := t.perform_of_le rfl hle
    rw [playRound_of_le t.first t.second hle] at hok
    obtain ⟨hfirst, hsecond, -⟩ := playPools_eq_ok_iff.mp hok
    rw [hperform, hout, hfirst.dealt_eq, hsecond.dealt_eq, ← List.take_add]
    rfl

end Table

/-! ### All steps -/

section Reachable

variable {seed : UInt64} {handedOut : List Card}

/-- The cards handed out since they were last gathered, after one more step. -/
def Step.tally (step : Step) (handedOut : List Card) (outcome : StepOutcome) : List Card :=
  if step.gathers then [] else handedOut ++ outcome.handedOut

/-- The decks that steps lead to from a new deck with a given seed, with the cards that were handed
out since they were last gathered. Every step may be one of a different table, whoever plays
there. -/
inductive Deck.Reachable (seed : UInt64) : Deck → List Card → Prop where
  /-- A new deck. -/
  | fresh : Reachable seed (.ofSeed seed) []
  /-- A deck after one more step. -/
  | step {deck : Deck} {handedOut : List Card} (h : Reachable seed deck handedOut) (table : Table)
      (step : Step) :
      Reachable seed (table.perform deck step).2 (step.tally handedOut (table.perform deck step).1)
  /-- A deck after a shuffle of which no more is known than that it rearranges the cards. -/
  | rearrange {deck : Deck} {handedOut undealt : List Card} (h : Reachable seed deck handedOut)
      (hperm : undealt.Perm fullDeck) (position : Nat) :
      Reachable seed { dealt := [], undealt, stream := { deck.stream with position } } []

/-- The cards handed out since they were last gathered, after some steps, as their outcomes tell. -/
def Table.tally (t : Table) (deck : Deck) (handedOut : List Card) (steps : List Step) : List Card :=
  (steps.zip (t.outcomes deck steps)).foldl
    (fun cards (step, outcome, _) => step.tally cards outcome) handedOut

/-- The deck that a list of steps at one table leads to is among them. -/
theorem Deck.Reachable.run (h : Deck.Reachable seed deck handedOut) (t : Table)
    (steps : List Step) :
    Deck.Reachable seed (t.run deck steps) (t.tally deck handedOut steps) := by
  induction steps generalizing deck handedOut with
  | nil => exact h
  | cons step rest ih => exact ih (h.step t step)

/-- What all steps keep: the cards of a deck are those of a full deck, its seed is the one that it
was made with, and the cards that it counts as dealt are those that were handed out. -/
structure Deck.IsAccountable (deck : Deck) (seed : UInt64) (handedOut : List Card) : Prop where
  isWhole : deck.IsWhole
  seed_eq : deck.seed = seed
  dealt_eq : deck.dealt = handedOut

theorem Deck.IsAccountable.perform (h : deck.IsAccountable seed handedOut) (t : Table)
    (step : Step) : (t.perform deck step).2.IsAccountable seed
      (step.tally handedOut (t.perform deck step).1) := by
  cases hstep : step.gathers with
  | true =>
    obtain ⟨undealt, stream, hperform, hperm, hseed⟩ := t.perform_of_gathers deck hstep
    rw [hperform, Step.tally, if_pos hstep]
    exact ⟨isWhole_of_perm rfl hperm, hseed.trans h.seed_eq, rfl⟩
  | false =>
    rw [Step.tally, hstep, if_neg Bool.false_ne_true]
    rcases Nat.lt_or_ge deck.remaining step.needs with hlt | hle
    · obtain ⟨outcome, hperform, -, hout⟩ := t.perform_of_lt hlt
      rw [hperform, hout, List.append_nil]
      exact h
    · obtain ⟨outcome, hperform, -, hout⟩ := t.perform_of_le hstep hle
      rw [hperform, hout]
      exact ⟨h.isWhole.advance _, by rw [seed_advance, h.seed_eq],
        by rw [dealt_advance, h.dealt_eq]⟩

/-- What each step keeps holds of every deck that steps lead to. -/
theorem Deck.Reachable.isAccountable (h : Deck.Reachable seed deck handedOut) :
    deck.IsAccountable seed handedOut := by
  induction h with
  | fresh => exact ⟨isWhole_of_perm rfl (.refl _), rfl, rfl⟩
  | step _ table step ih => exact ih.perform table step
  | rearrange _ hperm _ ih => exact ⟨isWhole_of_perm rfl hperm, ih.seed_eq, rfl⟩

/-- **No card is lost or dealt twice.** In every deck that steps lead to, the dealt and the undealt
cards are the 52 cards, the seed is the original one, and the dealt cards are those that were handed
out since the cards were last gathered, in order and each of them once. Every step that is refused
leaves the whole deck as it is. A round that succeeds has handed out the cards that its report calls
dealt, and a round of two opponents that fails leaves the deck as it is. -/
theorem Deck.Reachable.cards_conserved (h : Deck.Reachable seed deck handedOut) :
    (deck.dealt ++ deck.undealt).Perm fullDeck ∧
      deck.remaining + deck.dealt.length = 52 ∧
      deck.seed = seed ∧
      deck.dealt = handedOut ∧
      deck.dealt.Nodup ∧
      (∀ (table : Table) (step : Step),
        (table.perform deck step).1.IsRefused → (table.perform deck step).2 = deck) ∧
      (∀ (table : Table) (report : RoundReport),
        (playRound table.first table.second deck).1.outcome = .ok report →
          (table.perform deck .playRound).1.handedOut =
            report.first.dealt ++ report.second.dealt) ∧
      ∀ (first second : Opponent) (e : GameError),
        (playRound first second deck).1.outcome = .error e →
          (playRound first second deck).2 = deck := by
  obtain ⟨hwhole, hseed, hdealt⟩ := h.isAccountable
  refine ⟨hwhole, hwhole.remaining_add_length, hseed, hdealt,
    (List.nodup_append.mp hwhole.nodup).1, fun table step hrefused => ?_,
    fun table _ => table.handedOut_perform_playRound, fun first second e herror => ?_⟩
  · obtain ⟨_, hperform, -, -⟩ := table.perform_of_lt (table.isRefused_perform_iff.mp hrefused)
    rw [hperform]
  · rcases Nat.lt_or_ge deck.remaining (2 * poolSize) with hlt | hle
    · rw [playRound_of_lt first second hlt]
    · obtain ⟨_, hok, -⟩ := hwhole.exists_playRound first second hle
      exact nomatch hok.symm.trans herror

/-- After a reset and two deals four cards count as dealt, whatever was dealt before; a pool of
forty-nine cards is refused then. -/
theorem Deck.Reachable.cards_conserved_two_deals :
    ∃ deck, Deck.Reachable 5 deck
        [⟨.spades, .two⟩, ⟨.hearts, .two⟩, ⟨.diamonds, .two⟩, ⟨.clubs, .two⟩] ∧
      (deck.dealt ++ deck.undealt).Perm fullDeck ∧
      deck.remaining + deck.dealt.length = 52 ∧
      deck.seed = 5 ∧
      deck.dealt = [⟨.spades, .two⟩, ⟨.hearts, .two⟩, ⟨.diamonds, .two⟩, ⟨.clubs, .two⟩] ∧
      deck.dealt.Nodup ∧
      (Table.perform ⟨Opponent.standard, Opponent.standard⟩ deck (.dealPool 49)).2 = deck := by
  have hnew : Deck.Reachable 5 (.ofSeed 5) [] := fresh
  have hreachable := hnew.run ⟨Opponent.standard, Opponent.standard⟩
    [.dealPool 7, .reset, .dealCard, .dealPool 3]
  obtain ⟨hperm, hlength, hseed, hdealt, hnodup, hrefused, -, -⟩ := hreachable.cards_conserved
  exact ⟨_, hreachable, hperm, hlength, hseed, hdealt, hnodup,
    hrefused ⟨Opponent.standard, Opponent.standard⟩ (.dealPool 49) rfl⟩

/-- **Every round from a deck succeeds and is judged rightly.** From every deck that steps lead to,
any two opponents play a round if sixteen cards are left: both are dealt the next eight cards in
turn, no more are taken from the deck, and the report is sound. If fewer are left, they are told how
many, and the deck stays as it is. -/
theorem Deck.Reachable.round_sound (h : Deck.Reachable seed deck handedOut)
    (first second : Opponent) :
    (16 ≤ deck.remaining → ∃ report, (playRound first second deck).1.outcome = .ok report ∧
      report.IsSound (deck.undealt.take 8) ((deck.undealt.drop 8).take 8) ∧
      (playRound first second deck).2 = deck.advance 16) ∧
    (deck.remaining < 16 →
      (playRound first second deck).1.outcome = .error (.invalidPoolSize 16 deck.remaining) ∧
      (playRound first second deck).2 = deck) := by
  constructor
  · intro hle
    obtain ⟨report, hok, hsound⟩ := h.isAccountable.isWhole.exists_playRound first second hle
    refine ⟨report, hok, hsound, ?_⟩
    rw [playRound_of_le first second hle]
    rfl
  · intro hlt
    rw [playRound_of_lt first second hlt]
    exact ⟨rfl, rfl⟩

/-- The last sixteen cards of a deck are enough for a round, the last twelve are not. -/
theorem Deck.Reachable.round_sound_last :
    (∃ deck handedOut, Deck.Reachable 1 deck handedOut ∧ deck.remaining = 16 ∧
      ∃ report, (playRound Opponent.standard Opponent.standard deck).1.outcome = .ok report ∧
        report.IsSound (deck.undealt.take 8) ((deck.undealt.drop 8).take 8) ∧
        (playRound Opponent.standard Opponent.standard deck).2 = deck.advance 16) ∧
    ∃ deck handedOut, Deck.Reachable 1 deck handedOut ∧ deck.remaining = 12 ∧
      (playRound Opponent.standard Opponent.standard deck).1.outcome =
        .error (.invalidPoolSize 16 12) ∧
      (playRound Opponent.standard Opponent.standard deck).2 = deck := by
  have hnew : Deck.Reachable 1 (.ofSeed 1) [] := fresh
  have henough := hnew.run ⟨Opponent.standard, Opponent.standard⟩ [.dealPool 36]
  have hshort := hnew.run ⟨Opponent.standard, Opponent.standard⟩ [.dealPool 40]
  exact ⟨⟨_, _, henough, rfl, (henough.round_sound .standard .standard).1 (by decide)⟩,
    ⟨_, _, hshort, rfl, (hshort.round_sound .standard .standard).2 (by decide)⟩⟩

end Reachable

end CaliforniaPoker
