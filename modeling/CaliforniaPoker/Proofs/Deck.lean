import CaliforniaPoker.Deck.Basic
import CaliforniaPoker.Proofs.Hand.Completion

/-!
# Decks keep their cards and their seed

Dealing moves cards from one part of a deck to the other, and gathering brings all of them back.
This file shows what is left of a deck after each of its operations.

## Main definitions

* `Deck.IsWhole`: the dealt and the undealt cards are those of a full deck.
* `Deck.advance`: the deck after some cards are dealt.

## Main results

* `Deck.exists_shuffle`: a shuffle gathers the cards in some order and keeps the seed.
* `Deck.dealPool_of_lt`, `Deck.dealPool_of_le`: a deal is all or nothing.
* `Deck.IsWhole.advance`: dealing keeps a deck whole.
-/

namespace CaliforniaPoker

/-! ### The stream of a shuffle -/

namespace Keystream

theorem seed_next (k : Keystream) : k.next.2.seed = k.seed := rfl

theorem seed_below (bound : Nat) (k : Keystream) : (k.below bound).2.seed = k.seed := by
  simp only [below]
  split_ifs <;> simp only [seed_next]

end Keystream

namespace PositionDraw

theorem seed_refill (d : PositionDraw) (i : Nat) : (d.refill i).stream.seed = d.stream.seed := by
  rw [refill]
  split_ifs
  · exact Keystream.seed_below _ _
  · rfl

theorem seed_next (d : PositionDraw) (i : Nat) : (d.next i).2.stream.seed = d.stream.seed := by
  simp only [next]
  split_ifs <;> exact seed_refill d i

end PositionDraw

private theorem seed_foldl_shuffleStep {α : Type} (positions : List Nat)
    (state : Array α × PositionDraw) :
    (positions.foldl shuffleStep state).2.stream.seed = state.2.stream.seed := by
  induction positions generalizing state with
  | nil => rfl
  | cons i rest ih => exact (ih _).trans (PositionDraw.seed_next _ _)

/-- A shuffle goes on with the stream of the same seed. -/
theorem seed_shuffle {α : Type} (entries : List α) (stream : Keystream) :
    (shuffle entries stream).2.seed = stream.seed :=
  seed_foldl_shuffleStep _ _

namespace Deck

variable {d : Deck} {count : Nat}

/-- A shuffle gathers the cards in some order and keeps the seed. -/
theorem exists_shuffle (d : Deck) : ∃ (undealt : List Card) (stream : Keystream),
    d.shuffle = { dealt := [], undealt, stream } ∧ undealt.Perm fullDeck ∧
      stream.seed = d.seed := by
  have heq : d.shuffle = ⟨[], (CaliforniaPoker.shuffle fullDeck d.stream).1,
      (CaliforniaPoker.shuffle fullDeck d.stream).2⟩ := by rw [shuffle]
  have hperm := shuffle_perm fullDeck d.stream
  have hseed := seed_shuffle fullDeck d.stream
  -- only what is known of every shuffle is kept, so that no later step computes this one
  generalize CaliforniaPoker.shuffle fullDeck d.stream = shuffled at heq hperm hseed
  exact ⟨shuffled.1, shuffled.2, heq, hperm, hseed⟩

/-! ### Dealing -/

/-- The deck after the next cards are dealt. -/
def advance (d : Deck) (count : Nat) : Deck :=
  { d with dealt := d.dealt ++ d.undealt.take count, undealt := d.undealt.drop count }

@[simp] theorem dealt_advance (d : Deck) (count : Nat) :
    (d.advance count).dealt = d.dealt ++ d.undealt.take count := rfl

@[simp] theorem undealt_advance (d : Deck) (count : Nat) :
    (d.advance count).undealt = d.undealt.drop count := rfl

@[simp] theorem seed_advance (d : Deck) (count : Nat) : (d.advance count).seed = d.seed := rfl

theorem advance_zero (d : Deck) : d.advance 0 = d := by
  rw [advance, List.take_zero, List.append_nil, List.drop_zero]

theorem dealCard_of_lt (h : d.remaining < 1) : d.dealCard = (none, d) := by
  rw [dealCard, List.length_eq_zero_iff.mp (Nat.lt_one_iff.mp h)]

theorem dealCard_of_le (h : 1 ≤ d.remaining) :
    ∃ card, d.dealCard = (some card, d.advance 1) ∧ d.undealt.take 1 = [card] := by
  obtain ⟨dealt, _ | ⟨card, undealt⟩, stream⟩ := d
  · exact absurd h (Nat.not_succ_le_zero 0)
  · exact ⟨card, rfl, rfl⟩

theorem dealPool_of_lt (h : d.remaining < count) : d.dealPool count = (none, d) := by
  rw [dealPool, if_pos h]

theorem dealPool_of_le (h : count ≤ d.remaining) :
    d.dealPool count = (some (d.undealt.take count), d.advance count) := by
  rw [dealPool, if_neg (Nat.not_lt.mpr h), advance]

theorem dealPools_of_lt (h : d.remaining < 2 * poolSize) : d.dealPools = (none, d) := by
  rw [dealPools, dealPool_of_lt h]

theorem dealPools_of_le (h : 2 * poolSize ≤ d.remaining) :
    d.dealPools = (some (d.undealt.take poolSize, (d.undealt.drop poolSize).take poolSize),
      d.advance (2 * poolSize)) := by
  have hfirst : (d.undealt.take (2 * poolSize)).take poolSize = d.undealt.take poolSize :=
    List.take_take
  have hsecond : (d.undealt.take (2 * poolSize)).drop poolSize =
      (d.undealt.drop poolSize).take poolSize := List.drop_take
  rw [dealPools, dealPool_of_le h]
  simp only [hfirst, hsecond]

/-! ### Whole decks -/

/-- The dealt and the undealt cards of a deck are those of a full deck. -/
def IsWhole (d : Deck) : Prop := (d.dealt ++ d.undealt).Perm fullDeck

theorem isWhole_of_perm (hdealt : d.dealt = []) (hundealt : d.undealt.Perm fullDeck) :
    d.IsWhole := by
  rwa [IsWhole, hdealt, List.nil_append]

/-- Dealing keeps a deck whole. -/
theorem IsWhole.advance (h : d.IsWhole) (count : Nat) : (d.advance count).IsWhole := by
  rwa [IsWhole, dealt_advance, undealt_advance, List.append_assoc, List.take_append_drop]

theorem IsWhole.nodup (h : d.IsWhole) : (d.dealt ++ d.undealt).Nodup :=
  h.nodup_iff.mpr fullDeck_nodup

theorem IsWhole.remaining_add_length (h : d.IsWhole) : d.remaining + d.dealt.length = 52 := by
  rw [remaining, Nat.add_comm, ← List.length_append, List.Perm.length_eq h]
  rfl

end Deck

end CaliforniaPoker
