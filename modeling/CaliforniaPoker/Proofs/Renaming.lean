import CaliforniaPoker.Proofs.Pool
import Mathlib.Logic.Equiv.Defs

/-!
# Neither the order of the entries nor the names of the suits matter

The suits have an order for display, but none of them is worth more than another, and a hand is the
same hand in whatever order its entries lie. This file shows that evaluation and selection respect
both: a renaming that exchanges the suits one to one, together with any rearrangement of the
entries, changes neither whether there is a value nor which category and tiebreakers it has. What is
chosen may change, and so may the card that represents the hand.

The searches go through suits, ranks and candidates in fixed orders. None of that is followed here:
both sides have the greatest value that their naturals and wilds reach, and what can be reached is
the same under other names.

## Main definitions

* `Card.rename`, `HandCard.rename`: a card or an entry with its suit renamed.
* `FullHand.rename`: a hand with its suits renamed.

## Main results

* `FullHand.marks?_rename`: a hand shows the same marks under other names of the suits.
* `reaches_iff_of_perm_rename`: entries reach the same values under other names, in any order.
* `value_eq_of_perm_rename`: evaluation and selection give the same category and tiebreakers.
-/

namespace CaliforniaPoker

variable {σ : Equiv.Perm Suit}

/-! ### Renaming the suits -/

/-- The card of the same rank whose suit is renamed. -/
def Card.rename (σ : Equiv.Perm Suit) (c : Card) : Card := { suit := σ c.suit, rank := c.rank }

/-- An entry under a renaming of the suits; a wild has none and stays a wild. -/
def HandCard.rename (σ : Equiv.Perm Suit) : HandCard → HandCard
  | natural card => natural (card.rename σ)
  | wild => wild

@[simp] theorem Card.rename_symm_rename (c : Card) : (c.rename σ).rename σ.symm = c := by
  simp [rename]

@[simp] theorem HandCard.rename_symm_rename (entry : HandCard) :
    (entry.rename σ).rename σ.symm = entry := by
  cases entry with
  | natural card => rw [rename, rename, Card.rename_symm_rename]
  | wild => rfl

theorem Card.rename_injective (σ : Equiv.Perm Suit) : Function.Injective (Card.rename σ) :=
  Function.LeftInverse.injective fun _ => Card.rename_symm_rename _

/-- Elements that are renamed and rearranged become the old ones when they are renamed back. -/
theorem perm_map_of_leftInverse {α : Type} {f g : α → α} (hinverse : Function.LeftInverse g f)
    {xs ys : List α} (h : ys.Perm (xs.map f)) : xs.Perm (ys.map g) := by
  have hback := h.map g
  rw [List.map_map, hinverse.id, List.map_id] at hback
  exact hback.symm

theorem filterMap_card?_map_rename (entries : List HandCard) :
    (entries.map (HandCard.rename σ)).filterMap HandCard.card? =
      (entries.filterMap HandCard.card?).map (Card.rename σ) := by
  rw [List.filterMap_map, List.map_filterMap]
  exact List.filterMap_congr fun entry _ => by cases entry <;> rfl

theorem countP_isWild_map_rename (entries : List HandCard) :
    (entries.map (HandCard.rename σ)).countP HandCard.isWild =
      entries.countP HandCard.isWild := by
  rw [List.countP_map]
  exact List.countP_congr fun entry _ => by cases entry <;> rfl

/-! ### Hands under other names -/

namespace FullHand

variable (hand : FullHand)

/-- The hand whose suits are renamed. -/
def rename (σ : Equiv.Perm Suit) : FullHand where
  cards := hand.cards.map (Card.rename σ)
  length_eq := by rw [List.length_map, hand.length_eq]
  nodup := hand.nodup.map (Card.rename_injective σ)

@[simp] theorem ranks_rename : (hand.rename σ).ranks = hand.ranks := List.map_map

theorem isFlush_rename : (hand.rename σ).IsFlush ↔ hand.IsFlush := by
  simp [IsFlush, rename, Card.rename]

/-- A hand shows the same marks under other names of the suits. -/
theorem marks?_rename (category : Category) :
    (hand.rename σ).marks? category = hand.marks? category :=
  marks?_eq_of_perm_ranks (.of_eq hand.ranks_rename) hand.isFlush_rename category

end FullHand

/-! ### Evaluation and selection under other names -/

variable {entries entries' : List HandCard} {value value' : HandRank}

/-- What is the same under a renaming and in another order is so under the inverse renaming. -/
theorem perm_rename_symm (h : entries'.Perm (entries.map (HandCard.rename σ))) :
    entries.Perm (entries'.map (HandCard.rename σ.symm)) :=
  perm_map_of_leftInverse HandCard.rename_symm_rename h

/-- The hand that shows a value shows it under other names as well, with the renamed naturals. -/
theorem Reaches.rename {naturals : List Card} {wilds : Nat} (h : Reaches naturals wilds value) :
    Reaches (naturals.map (Card.rename σ)) wilds value := by
  obtain ⟨hand, hcount, hmarks⟩ := h
  refine ⟨hand.rename σ, ?_, (hand.marks?_rename _).trans hmarks⟩
  calc (hand.rename σ).cards.countP (· ∉ naturals.map (Card.rename σ))
      = hand.cards.countP (· ∉ naturals) := by
        rw [FullHand.rename, List.countP_map]
        refine List.countP_congr fun c _ => ?_
        simp only [Function.comp_apply, decide_eq_true_eq,
          List.mem_map_of_injective (Card.rename_injective σ)]
    _ ≤ wilds := hcount

private theorem reaches_of_perm_rename (h : entries'.Perm (entries.map (HandCard.rename σ)))
    (hreaches : Reaches (entries.filterMap HandCard.card?) (entries.countP HandCard.isWild) value) :
    Reaches (entries'.filterMap HandCard.card?) (entries'.countP HandCard.isWild) value := by
  have hnaturals := h.filterMap HandCard.card?
  rw [filterMap_card?_map_rename] at hnaturals
  have hwilds := h.countP_eq HandCard.isWild
  rw [countP_isWild_map_rename] at hwilds
  exact hreaches.rename.mono hnaturals.symm.subset hwilds.ge

/-- Entries reach the same values under other names of the suits, and in any order. -/
theorem reaches_iff_of_perm_rename (h : entries'.Perm (entries.map (HandCard.rename σ))) :
    Reaches (entries'.filterMap HandCard.card?) (entries'.countP HandCard.isWild) value ↔
      Reaches (entries.filterMap HandCard.card?) (entries.countP HandCard.isWild) value :=
  ⟨reaches_of_perm_rename (perm_rename_symm h), reaches_of_perm_rename h⟩

/-- The greatest values that two such lists reach agree in category and tiebreakers. -/
theorem eq_of_isGreatest_of_perm_rename (h : entries'.Perm (entries.map (HandCard.rename σ)))
    (hvalue : IsGreatest {v | Reaches (entries.filterMap HandCard.card?)
      (entries.countP HandCard.isWild) v} value)
    (hvalue' : IsGreatest {v | Reaches (entries'.filterMap HandCard.card?)
      (entries'.countP HandCard.isWild) v} value') :
    value'.category = value.category ∧ value'.tiebreakers = value.tiebreakers := by
  simp only [reaches_iff_of_perm_rename h] at hvalue'
  exact HandRank.le_antisymm_iff.mp ⟨hvalue.2 hvalue'.1, hvalue'.2 hvalue.1⟩

/-- No natural occurs twice under other names exactly when none did before. -/
theorem nodup_naturals_iff_of_perm_rename (h : entries'.Perm (entries.map (HandCard.rename σ))) :
    (entries'.filterMap HandCard.card?).Nodup ↔ (entries.filterMap HandCard.card?).Nodup := by
  rw [(h.filterMap HandCard.card?).nodup_iff, filterMap_card?_map_rename,
    List.nodup_map_iff (Card.rename_injective σ)]

/-- **Neither the order of the entries nor the names of the suits matter.** When the entries of a
list are rearranged and their suits are renamed one to one, the result has a value as a hand exactly
when the list has one, and the two values have the same category and the same tiebreakers. The same
holds for the best hand when both are taken for pools. -/
theorem value_eq_of_perm_rename (h : entries'.Perm (entries.map (HandCard.rename σ))) :
    (((∃ v', evaluate entries' = .ok v') ↔ ∃ v, evaluate entries = .ok v) ∧
      ∀ v v', evaluate entries = .ok v → evaluate entries' = .ok v' →
        v'.category = v.category ∧ v'.tiebreakers = v.tiebreakers) ∧
    (((∃ b', (selectBest entries' 5).outcome = .ok b') ↔
        ∃ b, (selectBest entries 5).outcome = .ok b) ∧
      ∀ b b', (selectBest entries 5).outcome = .ok b → (selectBest entries' 5).outcome = .ok b' →
        b'.rank.category = b.rank.category ∧ b'.rank.tiebreakers = b.rank.tiebreakers) := by
  have hlength : entries'.length = entries.length := by rw [h.length_eq, List.length_map]
  have hnodup := nodup_naturals_iff_of_perm_rename h
  refine ⟨⟨?_, fun v v' hok hok' => ?_⟩, ?_, fun b b' hok hok' => ?_⟩
  · rw [exists_evaluate_eq_ok_iff, exists_evaluate_eq_ok_iff, hlength, hnodup]
  · exact eq_of_isGreatest_of_perm_rename h (isGreatest_evaluateWithWilds hok)
      (isGreatest_evaluateWithWilds hok')
  · change (∃ b', (selectBest entries' handSize).outcome = .ok b') ↔
      ∃ b, (selectBest entries handSize).outcome = .ok b
    rw [exists_selectBest_eq_ok_iff, exists_selectBest_eq_ok_iff, hlength, hnodup]
  · exact eq_of_isGreatest_of_perm_rename h (isGreatest_selectBest hok) (isGreatest_selectBest hok')

/-- A wild completes four hearts to a straight flush to the ten, and an ace of clubs is left over. It
does so too when hearts and clubs change places and the entries are rearranged; the positions that
are chosen are others then. -/
theorem value_eq_of_perm_rename_straightFlush :
    let pool : List HandCard := [.natural ⟨.hearts, .nine⟩, .wild, .natural ⟨.hearts, .six⟩,
      .natural ⟨.clubs, .ace⟩, .natural ⟨.hearts, .eight⟩, .natural ⟨.hearts, .seven⟩]
    let pool' : List HandCard := [.natural ⟨.hearts, .ace⟩, .natural ⟨.clubs, .six⟩,
      .natural ⟨.clubs, .seven⟩, .natural ⟨.clubs, .eight⟩, .natural ⟨.clubs, .nine⟩, .wild]
    pool'.Perm (pool.map (HandCard.rename (Equiv.swap .hearts .clubs))) ∧
      (¬ ∃ v, evaluate pool' = .ok v) ∧
      ∃ b b', (selectBest pool 5).outcome = .ok b ∧ (selectBest pool' 5).outcome = .ok b' ∧
        b.rank.category = .straightFlush ∧ b.rank.tiebreakers = [.ten] ∧
        b'.rank.category = .straightFlush ∧ b'.rank.tiebreakers = [.ten] ∧
        b.indices = [0, 1, 2, 4, 5] ∧ b'.indices = [1, 2, 3, 4, 5] := by
  intro pool pool'
  have hperm : pool'.Perm (pool.map (HandCard.rename (Equiv.swap .hearts .clubs))) := by decide
  obtain ⟨⟨hevaluate, -⟩, -, hselect⟩ := value_eq_of_perm_rename hperm
  refine ⟨hperm, fun hvalue => ?_, _, _, rfl, rfl, rfl, rfl, (hselect _ _ rfl rfl).1,
    (hselect _ _ rfl rfl).2, rfl, rfl⟩
  obtain ⟨v, hv⟩ := hevaluate.mp hvalue
  exact nomatch hv

end CaliforniaPoker
