import CaliforniaPoker.Proofs.Enumeration
import Mathlib.Data.Finset.Powerset
import Mathlib.Data.Nat.Choose.Basic

/-!
# The number of combinations

The number of combinations is multiplied up factor by factor, and after each factor it is divided.
The division comes out even every time, because the running product is itself a number of
combinations: those of as many elements as there have been factors. This file shows that the loop
computes the binomial coefficient, and that an enumeration gives out as many index lists as the
coefficient says.

## Main definitions

* `runningProduct`: the product of the loop after some of its factors.

## Main results

* `runningProduct_eq_choose`: the running product is a binomial coefficient.
* `length_choose`: the number of combinations of a list.
* `Combinations.countAndLast_eq`: counting what an enumeration gives out.
* `binomial_counts`: the divisions are exact, and the result counts subsets and index lists.
-/

namespace CaliforniaPoker

variable {n k : Nat}

/-! ### The loop -/

/-- The product of the loop after its first `count` factors. -/
def runningProduct (n count : Nat) : Nat :=
  (List.range count).foldl (fun product i => product * (n - i) / (i + 1)) 1

theorem runningProduct_succ (n count : Nat) :
    runningProduct n (count + 1) = runningProduct n count * (n - count) / (count + 1) := by
  rw [runningProduct, List.range_succ, List.foldl_concat, ← runningProduct]

/-- The running product counts the combinations of as many elements as there were factors. -/
theorem runningProduct_eq_choose (n count : Nat) : runningProduct n count = n.choose count := by
  induction count with
  | zero => exact (Nat.choose_zero_right n).symm
  | succ count ih =>
    rw [runningProduct_succ, ih, ← Nat.choose_succ_right_eq,
      Nat.mul_div_cancel _ (Nat.succ_pos count)]

/-- No division of the loop leaves a remainder. -/
theorem dvd_runningProduct_mul (n i : Nat) : i + 1 ∣ runningProduct n i * (n - i) := by
  rw [runningProduct_eq_choose, ← Nat.choose_succ_right_eq]
  exact Nat.dvd_mul_left _ _

/-- The loop runs over the smaller half of the factors. -/
theorem binomial_of_le (hk : k ≤ n) : binomial n k = runningProduct n (min k (n - k)) :=
  if_neg (Nat.not_lt.mpr hk)

theorem binomial_eq_choose (n k : Nat) : binomial n k = n.choose k := by
  by_cases hk : k ≤ n
  · rw [binomial_of_le hk, runningProduct_eq_choose]
    rcases Nat.le_total k (n - k) with hle | hle
    · rw [Nat.min_eq_left hle]
    · rw [Nat.min_eq_right hle, Nat.choose_symm hk]
  · rw [binomial, if_pos (Nat.lt_of_not_le hk), Nat.choose_eq_zero_of_lt (Nat.lt_of_not_le hk)]

/-! ### The enumeration -/

theorem length_choose {α : Type} (k : Nat) (xs : List α) :
    (choose k xs).length = binomial xs.length k := by
  rw [binomial_eq_choose]
  induction xs generalizing k with
  | nil => cases k <;> rfl
  | cons x xs ih =>
    cases k with
    | zero => rw [choose, List.length_singleton, Nat.choose_zero_right]
    | succ k =>
      rw [choose, List.length_append, List.length_map, ih, ih, List.length_cons,
        Nat.choose_succ_succ]

namespace Combinations

variable {lists : List (List Nat)}

/-- With one request more than there are lists, all of them are counted. -/
theorem Gives.drain_eq {c : Combinations} (h : Gives c.size c.upcoming lists) {requests : Nat}
    (hrequests : lists.length < requests) (count : Nat) (last : Option (List Nat)) :
    drain requests c (count, last) = (count + lists.length, lists.getLast?.or last) := by
  induction requests generalizing c lists count last with
  | zero => exact absurd hrequests (Nat.not_lt_zero _)
  | succ requests ih =>
    obtain ⟨size, upcoming⟩ := c
    cases h with
    | done => rfl
    | @next indices lists h =>
      refine (ih h (Nat.lt_of_succ_lt_succ hrequests) (count + 1) (some indices)).trans ?_
      rw [List.length_cons, List.getLast?_cons, Nat.add_assoc, Nat.add_comm 1]
      cases lists.getLast? <;> rfl

theorem length_choose_range (n k : Nat) : (choose k (List.range n)).length = binomial n k := by
  rw [length_choose, List.length_range]

/-- Counting what an enumeration gives out comes to the binomial coefficient. -/
theorem countAndLast_eq (n k : Nat) :
    countAndLast n k = (binomial n k, (choose k (List.range n)).getLast?) := by
  have hrequests : (choose k (List.range n)).length < binomial n k + 1 := by
    rw [length_choose_range]
    exact Nat.lt_succ_self _
  rw [countAndLast, (gives_ofSize n k).drain_eq hrequests, length_choose_range, Nat.zero_add,
    Option.or_none]

/-- Some requests are answered by a list until as many lists have come as there are. -/
theorem countP_take_ofSize (n k count : Nat) :
    ((ofSize n k).take count).countP Option.isSome = min count (binomial n k) := by
  rw [take_ofSize, List.countP_map, ← length_choose_range]
  induction count with
  | zero => exact (Nat.zero_min _).symm
  | succ count ih =>
    rw [List.range_succ, List.countP_append, ih, List.countP_singleton]
    simp only [Function.comp_apply, isSome_getElem?]
    split_ifs <;> omega

end Combinations

/-- **The binomial coefficient.** The loop multiplies and divides the running product in turn; each
division is exact. The result is the number of `k`-element subsets of `n` things, hence zero exactly
for `k` above `n`, and it does not change when the elements that are left out are counted in place of
those that are chosen. As many index lists as it says are given out by the enumeration: so many of
any number of requests are answered by one, and so many are counted. -/
theorem binomial_counts (n k : Nat) :
    (k ≤ n → binomial n k = runningProduct n (min k (n - k))) ∧
      (∀ i, i + 1 ∣ runningProduct n i * (n - i)) ∧
      binomial n k = ((Finset.range n).powersetCard k).card ∧
      (binomial n k = 0 ↔ n < k) ∧
      (k ≤ n → binomial n k = binomial n (n - k)) ∧
      (∀ count, ((Combinations.ofSize n k).take count).countP Option.isSome =
        min count (binomial n k)) ∧
      (Combinations.countAndLast n k).1 = binomial n k := by
  refine ⟨binomial_of_le, dvd_runningProduct_mul n, ?_, ?_, fun hk => ?_,
    Combinations.countP_take_ofSize n k, by rw [Combinations.countAndLast_eq]⟩
  · rw [binomial_eq_choose, Finset.card_powersetCard, Finset.card_range]
  · rw [binomial_eq_choose, Nat.choose_eq_zero_iff]
  · rw [binomial_eq_choose, binomial_eq_choose, Nat.choose_symm hk]

/-- Five of eight cards can be chosen in as many ways as three of them can be left out. -/
theorem binomial_counts_five_of_eight :
    5 ≤ 8 ∧ binomial 8 5 = runningProduct 8 3 ∧ binomial 8 5 = binomial 8 3 ∧
      ((Combinations.ofSize 8 5).take 100).countP Option.isSome = 56 := by
  have hk : 5 ≤ 8 := by decide
  obtain ⟨hloop, -, -, -, hsymm, htake, -⟩ := binomial_counts 8 5
  exact ⟨hk, hloop hk, hsymm hk, htake 100⟩

end CaliforniaPoker
