import CaliforniaPoker.Hand.Evaluation
import CaliforniaPoker.Proofs.Hand.Order
import Mathlib.Data.List.Perm.Subperm

/-!
# The best flush that cards can make

Filling up the ranks of a suit takes those that are held and the highest of the others. This file
shows that of all descending choices of as many ranks that keep the held ones it is the greatest.

## Main results

* `fillRanks_sublist`, `mem_fillRanks_of_held`, `length_fillRanks`: what is chosen.
* `fillRanks_greatest`: no other such choice is above it.
* `flushSuit?_sound`, `exists_flushSuit?`: when natural cards and wilds can be of one suit.
-/

namespace CaliforniaPoker

/-! ### The suit of a flush -/

variable {naturals : List Card} {wilds : Nat}

/-- All naturals of a hand are of the suit of its flush. -/
theorem flushSuit?_sound {suit : Suit} (hsize : naturals.length + wilds = handSize)
    (h : flushSuit? naturals wilds = some suit) : ∀ c ∈ naturals, c.suit = suit := by
  have hcount : 5 ≤ (naturals.countP fun c => c.suit = suit) + wilds := by
    simpa using List.find?_some h
  have hlength : (naturals.countP fun c => c.suit = suit) = naturals.length := by
    have hle : (naturals.countP fun c => c.suit = suit) ≤ naturals.length := List.countP_le_length
    rw [handSize] at hsize
    omega
  simpa using List.countP_eq_length.mp hlength

/-- If all naturals of a hand are of one suit it has a suit for a flush. -/
theorem exists_flushSuit? {suit : Suit} (hsize : naturals.length + wilds = handSize)
    (h : ∀ c ∈ naturals, c.suit = suit) : ∃ suit', flushSuit? naturals wilds = some suit' := by
  cases hfind : flushSuit? naturals wilds with
  | some suit' => exact ⟨suit', rfl⟩
  | none =>
    have hcount : (naturals.countP fun c => c.suit = suit) = naturals.length :=
      List.countP_eq_length.mpr (by simpa using h)
    have hfew := List.find?_eq_none.mp hfind suit (Suit.mem_all suit)
    rw [hcount, hsize] at hfew
    exact absurd rfl hfew

theorem filter_flushSuit?_eq_self {suit : Suit} (hsize : naturals.length + wilds = handSize)
    (h : flushSuit? naturals wilds = some suit) :
    (naturals.filter fun c => c.suit = suit) = naturals :=
  List.filter_eq_self.mpr (by simpa using flushSuit?_sound hsize h)

/-- The best flush keeps the ranks of all naturals. -/
theorem flushRanks?_eq (hsize : naturals.length + wilds = handSize) :
    flushRanks? naturals wilds = (flushSuit? naturals wilds).map fun _ =>
      fillRanks (naturals.map Card.rank) wilds Rank.descending := by
  cases h : flushSuit? naturals wilds with
  | none => simp [flushRanks?, h]
  | some suit => simp [flushRanks?, h, filter_flushSuit?_eq_self hsize h]

/-- The best straight flush keeps the ranks of all naturals. -/
theorem straightFlushHigh?_eq (hsize : naturals.length + wilds = handSize) :
    straightFlushHigh? naturals wilds = (flushSuit? naturals wilds).bind fun _ =>
      straightHigh? (naturals.map Card.rank) := by
  cases h : flushSuit? naturals wilds with
  | none => simp [straightFlushHigh?, h]
  | some suit => simp [straightFlushHigh?, h, filter_flushSuit?_eq_self hsize h]

/-! ### Filling up -/

variable {held ranks choice : List Rank} {spare : Nat}

theorem fillRanks_cons_held {r : Rank} (hr : r ∈ held) :
    fillRanks held spare (r :: ranks) = r :: fillRanks held spare ranks := by
  cases spare <;> simp [fillRanks, hr]

theorem fillRanks_cons_zero {r : Rank} (hr : r ∉ held) :
    fillRanks held 0 (r :: ranks) = fillRanks held 0 ranks := by
  simp [fillRanks, hr]

theorem fillRanks_cons_succ {r : Rank} (hr : r ∉ held) :
    fillRanks held (spare + 1) (r :: ranks) = r :: fillRanks held spare ranks := by
  simp [fillRanks, hr]

theorem fillRanks_sublist (held : List Rank) (spare : Nat) (ranks : List Rank) :
    (fillRanks held spare ranks).Sublist ranks := by
  induction ranks generalizing spare with
  | nil => simp [fillRanks]
  | cons r ranks ih =>
    by_cases hr : r ∈ held
    · rw [fillRanks_cons_held hr]
      exact (ih spare).cons_cons r
    · cases spare with
      | zero =>
        rw [fillRanks_cons_zero hr]
        exact (ih 0).cons r
      | succ spare =>
        rw [fillRanks_cons_succ hr]
        exact (ih spare).cons_cons r

/-- The held ranks are chosen. -/
theorem mem_fillRanks_of_held {r : Rank} (hr : r ∈ held) (hmem : r ∈ ranks) :
    r ∈ fillRanks held spare ranks := by
  induction ranks generalizing spare with
  | nil => exact absurd hmem List.not_mem_nil
  | cons r' ranks ih =>
    by_cases hr' : r' ∈ held
    · rw [fillRanks_cons_held hr', List.mem_cons]
      exact (List.mem_cons.mp hmem).imp_right fun hmem => ih hmem
    · have hmem : r ∈ ranks := by
        rcases List.mem_cons.mp hmem with rfl | hmem
        · exact absurd hr hr'
        · exact hmem
      cases spare with
      | zero =>
        rw [fillRanks_cons_zero hr']
        exact ih hmem
      | succ spare =>
        rw [fillRanks_cons_succ hr']
        exact List.mem_cons_of_mem _ (ih hmem)

/-- All spare ranks are used as far as there are ranks to choose from. -/
theorem length_fillRanks (held : List Rank) (spare : Nat) (ranks : List Rank) :
    (fillRanks held spare ranks).length =
      min (ranks.countP (· ∈ held) + spare) ranks.length := by
  induction ranks generalizing spare with
  | nil => simp [fillRanks]
  | cons r ranks ih =>
    have hle : ranks.countP (· ∈ held) ≤ ranks.length := List.countP_le_length
    by_cases hr : r ∈ held
    · rw [fillRanks_cons_held hr, List.length_cons, ih,
        List.countP_cons_of_pos (by simpa using hr), List.length_cons]
      omega
    · rw [List.countP_cons_of_neg (by simpa using hr), List.length_cons]
      cases spare with
      | zero =>
        rw [fillRanks_cons_zero hr, ih]
        omega
      | succ spare =>
        rw [fillRanks_cons_succ hr, List.length_cons, ih]
        omega

/-- Among all ranks there are as many held ones as different ranks are held. -/
theorem countP_mem_descending (hnodup : held.Nodup) :
    Rank.descending.countP (· ∈ held) = held.length := by
  have hperm : (Rank.descending.filter (· ∈ held)).Perm held := by
    have hdescending := Rank.nodup_of_descends Rank.descending_pairwise
    rw [List.perm_ext_iff_of_nodup (hdescending.filter _) hnodup]
    intro r
    simp [Rank.mem_descending]
  rw [List.countP_eq_length_filter, hperm.length_eq]

/-- A choice that keeps the held ranks has at least as many ranks as are held. -/
theorem countP_held_le_length (hnodup : ranks.Nodup) (hkeep : ∀ r ∈ ranks, r ∈ held → r ∈ choice) :
    ranks.countP (· ∈ held) ≤ choice.length := by
  rw [List.countP_eq_length_filter]
  refine (List.subperm_of_subset (hnodup.filter _) fun r hr => ?_).length_le
  rw [List.mem_filter, decide_eq_true_eq] at hr
  exact hkeep r hr.1 hr.2

/-- No descending choice of at most as many ranks that keeps the held ones is above the one made. -/
theorem fillRanks_greatest (hsorted : ranks.Pairwise fun r r' => r' < r)
    (hchoice : choice.Sublist ranks) (hheld : ∀ r ∈ ranks, r ∈ held → r ∈ choice)
    (hlength : choice.length ≤ ranks.countP (· ∈ held) + spare) :
    (compare choice (fillRanks held spare ranks)).isLE := by
  induction ranks generalizing spare choice with
  | nil =>
    obtain rfl := List.sublist_nil.mp hchoice
    rfl
  | cons r ranks ih =>
    rw [List.pairwise_cons] at hsorted
    obtain ⟨hbelow, hsorted⟩ := hsorted
    have hnotMem : r ∉ ranks := fun hr => Nat.lt_irrefl _ (hbelow r hr)
    -- either the choice takes the highest rank as well, or it lies in the ranks below
    rcases List.sublist_cons_iff.mp hchoice with hrest | ⟨rest, rfl, hrest⟩
    · have hr : r ∉ held := fun hr => hnotMem (hrest.subset (hheld r List.mem_cons_self hr))
      have hkeep : ∀ r' ∈ ranks, r' ∈ held → r' ∈ choice :=
        fun r' hr' => hheld r' (List.mem_cons_of_mem r hr')
      rw [List.countP_cons_of_neg (by simpa using hr)] at hlength
      cases spare with
      | zero =>
        rw [fillRanks_cons_zero hr]
        exact ih hsorted hrest hkeep hlength
      | succ spare =>
        rw [fillRanks_cons_succ hr]
        cases choice with
        | nil => rfl
        | cons r' choice =>
          exact isLE_compare_cons_iff.mpr (.inl (hbelow r' (hrest.subset List.mem_cons_self)))
    · have hkeep : ∀ r' ∈ ranks, r' ∈ held → r' ∈ rest := by
        intro r' hr' hheld'
        rcases List.mem_cons.mp (hheld r' (List.mem_cons_of_mem r hr') hheld') with rfl | hmem
        · exact absurd hr' hnotMem
        · exact hmem
      by_cases hr : r ∈ held
      · rw [List.countP_cons_of_pos (by simpa using hr), List.length_cons] at hlength
        have hle := ih hsorted hrest hkeep (show rest.length ≤ _ + spare by omega)
        rw [fillRanks_cons_held hr]
        exact isLE_compare_cons_iff.mpr (.inr ⟨rfl, hle⟩)
      · rw [List.countP_cons_of_neg (by simpa using hr), List.length_cons] at hlength
        cases spare with
        | zero =>
          -- nothing is to spare, but the choice has all held ranks and one more
          have := countP_held_le_length (Rank.nodup_of_descends hsorted) hkeep
          omega
        | succ spare =>
          have hle := ih hsorted hrest hkeep (show rest.length ≤ _ + spare by omega)
          rw [fillRanks_cons_succ hr]
          exact isLE_compare_cons_iff.mpr (.inr ⟨rfl, hle⟩)

end CaliforniaPoker
