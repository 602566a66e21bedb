import CaliforniaPoker.Proofs.Table

/-!
# What a shuffle gives depends on the seed and on the number of shuffles

Only shuffles read the random stream of a deck, and each of them begins with the cards in the order
of their ids. So a deck that was just shuffled is determined by its seed and by how often it was
shuffled: what was dealt, refused, gathered or played in between has left no trace. What is dealt
from it afterwards is determined as well, whoever the players of its rounds are.

## Main definitions

* `Keystream.IsAfter`: the stream that a number of shuffles leaves.
* `Move`: a step taken at some table.
* `Deck.after`, `Deck.outcomes`: the deck after some moves, and what came of each of them.
* `History`: how a deck was opened, and the moves since then.

## Main results

* `Keystream.IsAfter.unique`: equally many shuffles leave equal streams.
* `Table.isAfter_perform`, `Deck.isAfter_after`: what a step and a run do to the stream.
* `Table.perform_congr`, `Deck.outcomes_congr`: what is dealt does not depend on the players.
* `History.deck_eq_of_shuffles_eq`: equally many shuffles give equal decks.
-/

namespace CaliforniaPoker

variable {seed : UInt64} {n : Nat} {d d' : Deck} {step : Step}

/-! ### Streams and shuffles -/

/-- A shuffle takes nothing but the stream from the deck that it gathers. -/
theorem Deck.shuffle_congr (h : d.stream = d'.stream) : d.shuffle = d'.shuffle := by
  rw [shuffle, shuffle, h]

/-- The stream that a number of shuffles leaves of the stream of a seed, whatever the decks were
that were shuffled. -/
inductive Keystream.IsAfter (seed : UInt64) : Nat → Keystream → Prop where
  /-- Without a shuffle the stream is at its start. -/
  | start : IsAfter seed 0 (.ofSeed seed)
  /-- One more deck is shuffled. -/
  | shuffle {n : Nat} {deck : Deck} (h : IsAfter seed n deck.stream) :
      IsAfter seed (n + 1) deck.shuffle.stream

/-- Equally many shuffles leave equal streams. -/
theorem Keystream.IsAfter.unique {stream stream' : Keystream} (h : IsAfter seed n stream)
    (h' : IsAfter seed n stream') : stream = stream' := by
  induction h generalizing stream' with
  | start =>
    cases h'
    rfl
  | shuffle _ ih =>
    cases h' with
    | shuffle h' => exact congrArg Deck.stream (Deck.shuffle_congr (ih h'))

/-! ### One step -/

namespace Table

variable (t : Table)

/-- A step that gathers no cards leaves the stream as it is. -/
theorem stream_perform (hstep : step.gathers = false) :
    (t.perform d step).2.stream = d.stream := by
  rcases Nat.lt_or_ge d.remaining step.needs with hlt | hle
  · obtain ⟨_, hperform, -, -⟩ := t.perform_of_lt hlt
    rw [hperform]
  · obtain ⟨_, hperform, -, -⟩ := t.perform_of_le hstep hle
    rw [hperform]
    rfl

/-- Only shuffles count for the stream. -/
theorem isAfter_perform (h : d.stream.IsAfter seed n) (step : Step) :
    (t.perform d step).2.stream.IsAfter seed (n + if step = .shuffle then 1 else 0) := by
  cases hstep : step.gathers with
  | true =>
    obtain rfl | rfl := Step.gathers_eq_true_iff.mp hstep
    · exact h.shuffle
    · exact h
  | false =>
    have hshuffle : step ≠ .shuffle := by
      rintro rfl
      cases hstep
    rwa [t.stream_perform hstep, if_neg hshuffle]

/-- What a step deals, and the deck after it, do not depend on the players. -/
theorem perform_congr (t' : Table) (step : Step) :
    (t.perform d step).1.handedOut = (t'.perform d step).1.handedOut ∧
      (t.perform d step).2 = (t'.perform d step).2 := by
  cases hstep : step.gathers with
  | true => obtain rfl | rfl := Step.gathers_eq_true_iff.mp hstep <;> exact ⟨rfl, rfl⟩
  | false =>
    rcases Nat.lt_or_ge d.remaining step.needs with hlt | hle
    · obtain ⟨_, hperform, -, hout⟩ := t.perform_of_lt hlt
      obtain ⟨_, hperform', -, hout'⟩ := t'.perform_of_lt hlt
      rw [hperform, hperform']
      exact ⟨hout.trans hout'.symm, rfl⟩
    · obtain ⟨_, hperform, -, hout⟩ := t.perform_of_le hstep hle
      obtain ⟨_, hperform', -, hout'⟩ := t'.perform_of_le hstep hle
      rw [hperform, hperform']
      exact ⟨hout.trans hout'.symm, rfl⟩

end Table

/-! ### Runs -/

/-- A step taken at some table. -/
structure Move where
  /-- The table at which the step is taken. -/
  table : Table
  /-- What is done with the deck. -/
  step : Step

/-- How many of some moves are shuffles. -/
def shuffleCount (moves : List Move) : Nat := moves.countP fun move => move.step = .shuffle

theorem shuffleCount_cons (move : Move) (moves : List Move) :
    shuffleCount (move :: moves) = (if move.step = .shuffle then 1 else 0) + shuffleCount moves := by
  simp [shuffleCount, List.countP_cons, Nat.add_comm]

theorem shuffleCount_concat {last : Move} (hlast : last.step = .shuffle) (moves : List Move) :
    shuffleCount (moves ++ [last]) = shuffleCount moves + 1 := by
  simp [shuffleCount, hlast]

namespace Deck

/-- The deck after some moves. -/
def after (d : Deck) (moves : List Move) : Deck :=
  moves.foldl (fun d move => (move.table.perform d move.step).2) d

/-- What came of each of some moves. -/
def outcomes (d : Deck) : List Move → List StepOutcome
  | [] => []
  | move :: rest =>
    (move.table.perform d move.step).1 :: (move.table.perform d move.step).2.outcomes rest

theorem after_cons (d : Deck) (move : Move) (moves : List Move) :
    d.after (move :: moves) = (move.table.perform d move.step).2.after moves := rfl

/-- After a run the stream is where its shuffles have brought it. -/
theorem isAfter_after (h : d.stream.IsAfter seed n) (moves : List Move) :
    (d.after moves).stream.IsAfter seed (n + shuffleCount moves) := by
  induction moves generalizing d n with
  | nil => exact h
  | cons move moves ih =>
    rw [shuffleCount_cons, ← Nat.add_assoc, after_cons]
    exact ih (move.table.isAfter_perform h move.step)

/-- The cards that moves deal, and the deck after them, are determined by their steps. -/
theorem outcomes_congr {moves moves' : List Move}
    (hsteps : moves.map Move.step = moves'.map Move.step) :
    (d.outcomes moves).map StepOutcome.handedOut =
        (d.outcomes moves').map StepOutcome.handedOut ∧
      d.after moves = d.after moves' := by
  induction moves generalizing d moves' with
  | nil =>
    obtain rfl := List.map_eq_nil_iff.mp hsteps.symm
    exact ⟨rfl, rfl⟩
  | cons move moves ih =>
    obtain ⟨move', moves', rfl, hstep, hrest⟩ := List.map_eq_cons_iff.mp hsteps.symm
    obtain ⟨hout, hdeck⟩ := move.table.perform_congr move'.table move.step
    obtain ⟨houts, hafter⟩ := ih (d := (move.table.perform d move.step).2) hrest.symm
    rw [hdeck] at houts hafter
    rw [after_cons, after_cons, outcomes, outcomes, List.map_cons, List.map_cons, hstep, hout,
      hdeck, houts, hafter]
    exact ⟨rfl, rfl⟩

end Deck

/-! ### Histories -/

/-- How a deck was opened. -/
inductive Opening where
  /-- Its cards are in the order of their ids. -/
  | ordered
  /-- It was shuffled once. -/
  | shuffled

namespace Opening

/-- The deck with a seed that is opened so. -/
def deck (seed : UInt64) : Opening → Deck
  | ordered => .ofSeed seed
  | shuffled => .shuffled seed

/-- The number of shuffles that such a deck has had. -/
def shuffles : Opening → Nat
  | ordered => 0
  | shuffled => 1

theorem isAfter_deck (seed : UInt64) (opening : Opening) :
    (opening.deck seed).stream.IsAfter seed opening.shuffles := by
  cases opening with
  | ordered => exact .start
  | shuffled =>
    have hordered : (Deck.ofSeed seed).stream.IsAfter seed 0 := .start
    exact hordered.shuffle

end Opening

/-- How a deck was opened, and the moves since then. -/
structure History where
  opening : Opening
  moves : List Move

namespace History

variable {h h' : History}

/-- The deck with a seed that has this history. -/
def deck (h : History) (seed : UInt64) : Deck := (h.opening.deck seed).after h.moves

/-- The number of shuffles in a history, that of the opening included. -/
def shuffles (h : History) : Nat := h.opening.shuffles + shuffleCount h.moves

/-- The last thing that was done is a shuffle. -/
def EndsWithShuffle (h : History) : Prop :=
  match h.moves.getLast? with
  | some move => move.step = .shuffle
  | none => h.opening = .shuffled

/-- A deck whose history ends with a shuffle comes from a deck whose stream saw one shuffle less. -/
theorem EndsWithShuffle.exists_shuffle (hend : h.EndsWithShuffle) (seed : UInt64) :
    ∃ (n : Nat) (before : Deck), h.shuffles = n + 1 ∧ before.stream.IsAfter seed n ∧
      h.deck seed = before.shuffle := by
  obtain ⟨opening, moves⟩ := h
  cases moves using List.reverseRecOn with
  | nil =>
    obtain rfl : opening = .shuffled := hend
    exact ⟨0, .ofSeed seed, rfl, .start, rfl⟩
  | append_singleton moves last =>
    have hlast : last.step = .shuffle := by
      rwa [EndsWithShuffle, List.getLast?_concat] at hend
    refine ⟨opening.shuffles + shuffleCount moves, (opening.deck seed).after moves, ?_,
      Deck.isAfter_after (opening.isAfter_deck seed) moves, ?_⟩
    · rw [shuffles, shuffleCount_concat hlast, Nat.add_assoc]
    · rw [deck, Deck.after, List.foldl_concat, hlast]
      rfl

/-- **A shuffle depends on the seed and on the number of shuffles alone.** When two histories end
with a shuffle and have equally many shuffles, decks with the same seed are equal after them: no
card is dealt, and all cards lie in the same order. The same further steps then deal the same cards
from both and leave equal decks, whoever the players are. -/
theorem deck_eq_of_shuffles_eq (seed : UInt64) (hend : h.EndsWithShuffle)
    (hend' : h'.EndsWithShuffle) (hcount : h.shuffles = h'.shuffles) :
    h.deck seed = h'.deck seed ∧ (h.deck seed).dealt = [] ∧
      (h.deck seed).undealt.Perm fullDeck ∧
      ∀ moves moves' : List Move, moves.map Move.step = moves'.map Move.step →
        ((h.deck seed).outcomes moves).map StepOutcome.handedOut =
            ((h'.deck seed).outcomes moves').map StepOutcome.handedOut ∧
          (h.deck seed).after moves = (h'.deck seed).after moves' := by
  obtain ⟨n, before, hn, hstream, hdeck⟩ := hend.exists_shuffle seed
  obtain ⟨n', before', hn', hstream', hdeck'⟩ := hend'.exists_shuffle seed
  obtain rfl : n = n' := by omega
  have heq : h.deck seed = h'.deck seed := by
    rw [hdeck, hdeck', Deck.shuffle_congr (hstream.unique hstream')]
  obtain ⟨undealt, stream, hshuffle, hperm, -⟩ := before.exists_shuffle
  have hdealt : (h.deck seed).dealt = [] := by rw [hdeck, hshuffle]
  have hundealt : (h.deck seed).undealt.Perm fullDeck := by
    rw [hdeck, hshuffle]
    exact hperm
  refine ⟨heq, hdealt, hundealt, fun moves moves' hsteps => ?_⟩
  rw [← heq]
  exact Deck.outcomes_congr hsteps

/-- A deck that is dealt from, is played with by someone who keeps all cards, and refuses a pool
before its second shuffle is the deck that was opened with a shuffle and shuffled at once. -/
theorem deck_eq_of_shuffles_eq_two :
    let t : Table := { first := Opponent.standard, second := Opponent.standard }
    let keeper : Player :=
      { name := "Keeper", chooseDiscards := fun _ => .fail (.invalidDiscard (.wrongCount 0)) }
    let h : History := ⟨.ordered, [⟨t, .dealPool 7⟩, ⟨t, .shuffle⟩,
      ⟨{ first := Opponent.standard, second := keeper }, .playRound⟩,
      ⟨t, .dealPool 40⟩, ⟨t, .reset⟩, ⟨t, .dealCard⟩, ⟨t, .shuffle⟩]⟩
    let h' : History := ⟨.shuffled, [⟨t, .shuffle⟩]⟩
    h.EndsWithShuffle ∧ h'.EndsWithShuffle ∧ h.shuffles = h'.shuffles ∧
      h.deck 2024 = h'.deck 2024 ∧
      ((h.deck 2024).outcomes [⟨t, .dealPools⟩, ⟨t, .shuffle⟩, ⟨t, .dealCard⟩]).map
          StepOutcome.handedOut =
        ((h'.deck 2024).outcomes [⟨t, .dealPools⟩, ⟨t, .shuffle⟩, ⟨t, .dealCard⟩]).map
          StepOutcome.handedOut := by
  intro t keeper h h'
  have hend : h.EndsWithShuffle := rfl
  have hend' : h'.EndsWithShuffle := rfl
  have hcount : h.shuffles = h'.shuffles := rfl
  obtain ⟨heq, -, -, hfurther⟩ := deck_eq_of_shuffles_eq 2024 hend hend' hcount
  exact ⟨hend, hend', hcount, heq, (hfurther _ _ rfl).1⟩

end History

end CaliforniaPoker
