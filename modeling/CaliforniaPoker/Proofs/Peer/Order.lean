import CaliforniaPoker.Peer.Result
import CaliforniaPoker.Proofs.Hand.Image

/-!
# The peer sees who wins

The peer is told codes of categories and indices of ranks. This file shows that comparing these
numbers decides between two hands as the comparison of their values does, whichever way categories
are numbered. Where royal flushes are straight flushes, this rests on the tiebreakers that hands
have: no straight flush ends in an ace.

## Main definitions

* `PeerResult.order`: results compared by category and then by tiebreakers.
* `CategoryNumbering.regard`: the value of a hand as a numbering sees it.

## Main results

* `CategoryNumbering.compare_regard`: values of hands are compared as the numbering sees them.
* `PeerResult.order_ofRank_eq_compare`: results are ordered as the values that they are for.
-/

namespace CaliforniaPoker

/-! ### Numbers -/

theorem compare_toNat (a b : UInt8) : compare a.toNat b.toNat = compare a b := by
  change compareOfLessAndEq a.toNat b.toNat = compareOfLessAndEq a b
  simp only [compareOfLessAndEq, UInt8.lt_iff_toNat_lt, UInt8.toNat_inj]

/-- Lists are compared by the images of their elements if these are ordered as the elements. -/
theorem compare_map {α β : Type} [Ord α] [Ord β] {f : α → β}
    (hf : ∀ x y, compare (f x) (f y) = compare x y) (xs ys : List α) :
    compare (xs.map f) (ys.map f) = compare xs ys := by
  induction xs generalizing ys with
  | nil => cases ys <;> rfl
  | cons x xs ih =>
    cases ys with
    | nil => rfl
    | cons y ys => rw [List.map_cons, List.map_cons, List.compare_cons_cons,
        List.compare_cons_cons, hf, ih]

namespace PeerResult

theorem toNat_rankIndex (r : Rank) : (rankIndex r).toNat = r.value - 2 := by cases r <;> rfl

/-- The indices of ranks are ordered as the ranks. -/
theorem compare_rankIndex (r r' : Rank) : compare (rankIndex r) (rankIndex r') = compare r r' := by
  have hlow := r.two_le_value
  have hlow' := r'.two_le_value
  change _ = compare r.value r'.value
  rw [← compare_toNat, toNat_rankIndex, toNat_rankIndex]
  rcases Nat.lt_trichotomy r.value r'.value with h | h | h
  · rw [Nat.compare_eq_lt.mpr h, Nat.compare_eq_lt]
    omega
  · rw [Nat.compare_eq_eq.mpr h, Nat.compare_eq_eq]
    omega
  · rw [Nat.compare_eq_gt.mpr h, Nat.compare_eq_gt]
    omega

/-- Results are compared by category and then by tiebreakers, in lexicographic order. -/
def order (p q : PeerResult) : Ordering :=
  (compare p.category q.category).then (compare p.tiebreakers q.tiebreakers)

theorem order_eq_eq_iff {p q : PeerResult} :
    p.order q = .eq ↔ p.category = q.category ∧ p.tiebreakers = q.tiebreakers := by
  rw [order, Ordering.then_eq_eq, Std.LawfulEqOrd.compare_eq_iff_eq,
    Std.LawfulEqOrd.compare_eq_iff_eq]

/-- With a number for every category results are ordered as the values of the hands. -/
theorem order_ofRank_ten (a b : HandRank) :
    (ofRank a .ten).order (ofRank b .ten) = compare a b := by
  have hcode (c : Category) : (UInt8.ofNat c.code).toNat = c.code := by cases c <;> rfl
  have hcategory : compare (ofRank a .ten).category (ofRank b .ten).category =
      compare a.category b.category := by
    rw [← compare_toNat]
    exact congrArg₂ compare (hcode _) (hcode _)
  have htiebreakers : compare (ofRank a .ten).tiebreakers (ofRank b .ten).tiebreakers =
      compare a.tiebreakers b.tiebreakers := by
    simp only [ofRank, reduceCtorEq, false_and, if_false, List.append_nil]
    exact compare_map compare_rankIndex _ _
  rw [order, hcategory, htiebreakers, HandRank.compare_eq]

end PeerResult

/-! ### Numberings -/

namespace CategoryNumbering

/-- The value of a hand as a numbering sees it: without a number of its own, a royal flush is a
straight flush to the ace. -/
def regard (n : CategoryNumbering) (h : HandRank) : HandRank :=
  if n = .legacy ∧ h.category = .royalFlush then
    { h with category := .straightFlush, tiebreakers := h.tiebreakers ++ [.ace] }
  else h

theorem regard_of_ne {n : CategoryNumbering} {h : HandRank} (hother : h.category ≠ .royalFlush) :
    n.regard h = h :=
  if_neg fun hroyal => hother hroyal.2

theorem ofRank_regard (n : CategoryNumbering) (h : HandRank) :
    PeerResult.ofRank (n.regard h) .ten = PeerResult.ofRank h n := by
  obtain ⟨category, tiebreakers, representative⟩ := h
  cases n <;> cases category <;> simp [regard, PeerResult.ofRank, code, Category.legacyCode]

/-- Royal flushes have no tiebreakers. -/
theorem tiebreakers_of_royalFlush {h : HandRank} (hadmits : h.category.Admits h.tiebreakers)
    (hroyal : h.category = .royalFlush) : h.tiebreakers = [] := by
  rw [hroyal] at hadmits
  cases htiebreakers : h.tiebreakers with
  | nil => rfl
  | cons r rest =>
    rw [htiebreakers] at hadmits
    exact hadmits.elim

/-- Straight flushes end in the king at most. -/
theorem tiebreakers_of_straightFlush {h : HandRank} (hadmits : h.category.Admits h.tiebreakers)
    (hcategory : h.category = .straightFlush) :
    ∃ high, h.tiebreakers = [high] ∧ high.value ≤ Rank.king.value := by
  rw [hcategory] at hadmits
  rcases htiebreakers : h.tiebreakers with _ | ⟨high, _ | ⟨r, rest⟩⟩ <;>
    rw [htiebreakers] at hadmits
  · exact hadmits.elim
  · exact ⟨high, rfl, hadmits.2⟩
  · exact hadmits.elim

/-- A straight flush to the ace beats all hands but royal flushes, as a royal flush does. -/
theorem compare_regard_of_royalFlush {a b : HandRank} (ha : a.category.Admits a.tiebreakers)
    (hb : b.category.Admits b.tiebreakers) (hroyal : a.category = .royalFlush)
    (hother : b.category ≠ .royalFlush) :
    compare (regard .legacy a) b = .gt ∧ compare a b = .gt := by
  have hcode : b.category.code ≤ Category.straightFlush.code := by
    cases hcategory : b.category with
    | royalFlush => exact absurd hcategory hother
    | _ => decide
  have hregard : regard .legacy a =
      { a with category := .straightFlush, tiebreakers := [.ace] } := by
    rw [regard, if_pos ⟨rfl, hroyal⟩, tiebreakers_of_royalFlush ha hroyal, List.nil_append]
  rw [hregard, HandRank.compare_eq_gt_iff, HandRank.compare_eq_gt_iff, HandRank.le_iff,
    HandRank.le_iff, hroyal]
  constructor
  · rintro (hlt | ⟨heq, hle⟩)
    · exact absurd hlt (Nat.not_lt_of_le hcode)
    · -- the straight flushes of hands end in the king at most
      obtain ⟨high, htiebreakers, hhigh⟩ := tiebreakers_of_straightFlush hb heq.symm
      rw [htiebreakers, isLE_compare_singleton_iff] at hle
      exact absurd (hle.trans hhigh) (by decide)
  · rintro (hlt | ⟨heq, -⟩)
    · exact absurd (hlt.trans_le hcode) (by decide)
    · exact hother heq.symm

/-- Hands are compared by what a numbering sees of their values. -/
theorem compare_regard {a b : HandRank} (n : CategoryNumbering)
    (ha : a.category.Admits a.tiebreakers) (hb : b.category.Admits b.tiebreakers) :
    compare (n.regard a) (n.regard b) = compare a b := by
  cases n with
  | ten => rfl
  | legacy =>
    by_cases hra : a.category = .royalFlush <;> by_cases hrb : b.category = .royalFlush
    · have hta := tiebreakers_of_royalFlush ha hra
      have htb := tiebreakers_of_royalFlush hb hrb
      rw [HandRank.compare_eq, HandRank.compare_eq, hra, hrb, hta, htb, regard, regard,
        if_pos ⟨rfl, hra⟩, if_pos ⟨rfl, hrb⟩, hta, htb]
      rfl
    · rw [regard_of_ne hrb]
      obtain ⟨hgt, hgt'⟩ := compare_regard_of_royalFlush ha hb hra hrb
      rw [hgt, hgt']
    · rw [regard_of_ne hra]
      obtain ⟨hgt, hgt'⟩ := compare_regard_of_royalFlush hb ha hrb hra
      rw [HandRank.compare_swap (regard .legacy b), HandRank.compare_swap b, hgt, hgt']
    · rw [regard_of_ne hra, regard_of_ne hrb]

end CategoryNumbering

/-- **The peer sees who wins.** Results for two hands, under either numbering of categories, are
ordered as the values of the hands; they have the same category and tiebreakers exactly when the
hands tie. -/
theorem PeerResult.order_ofRank_eq_compare {entries entries' : List HandCard} {a b : HandRank}
    (ha : evaluate entries = .ok a) (hb : evaluate entries' = .ok b) (n : CategoryNumbering) :
    (ofRank a n).order (ofRank b n) = compare a b ∧
      ((ofRank a n).category = (ofRank b n).category ∧
        (ofRank a n).tiebreakers = (ofRank b n).tiebreakers ↔ compare a b = .eq) := by
  have horder : (ofRank a n).order (ofRank b n) = compare a b := by
    rw [← n.ofRank_regard, ← n.ofRank_regard, order_ofRank_ten,
      n.compare_regard (admits_of_evaluate ha) (admits_of_evaluate hb)]
  refine ⟨horder, ?_⟩
  rw [← order_eq_eq_iff, horder]

/-- A royal flush made with a wild beats a straight flush to the king, and the peer is told so when
both count as straight flushes. -/
theorem PeerResult.order_ofRank_eq_compare_royalFlush :
    ∃ a b, evaluate [.natural ⟨.hearts, .ace⟩, .natural ⟨.hearts, .ten⟩, .wild,
          .natural ⟨.hearts, .queen⟩, .natural ⟨.hearts, .king⟩] = .ok a ∧
      evaluate [.natural ⟨.clubs, .king⟩, .natural ⟨.clubs, .nine⟩, .natural ⟨.clubs, .ten⟩,
          .natural ⟨.clubs, .queen⟩, .natural ⟨.clubs, .jack⟩] = .ok b ∧
      ofRank a .legacy = ⟨8, [12], []⟩ ∧ ofRank b .legacy = ⟨8, [11], []⟩ ∧
      compare a b = .gt ∧ (ofRank a .legacy).order (ofRank b .legacy) = compare a b := by
  have ha : evaluate [.natural ⟨.hearts, .ace⟩, .natural ⟨.hearts, .ten⟩, .wild,
      .natural ⟨.hearts, .queen⟩, .natural ⟨.hearts, .king⟩] =
        .ok ⟨.royalFlush, [], some ⟨.hearts, .ace⟩⟩ := rfl
  have hb : evaluate [.natural ⟨.clubs, .king⟩, .natural ⟨.clubs, .nine⟩, .natural ⟨.clubs, .ten⟩,
      .natural ⟨.clubs, .queen⟩, .natural ⟨.clubs, .jack⟩] =
        .ok ⟨.straightFlush, [.king], some ⟨.clubs, .king⟩⟩ := rfl
  exact ⟨_, _, ha, hb, rfl, rfl, rfl, (order_ofRank_eq_compare ha hb .legacy).1⟩

end CaliforniaPoker
