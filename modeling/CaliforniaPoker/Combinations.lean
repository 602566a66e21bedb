/-!
# Combinations

The sublists of a list that have a given number of elements, in lexicographic order of the
positions they come from. They are given in three forms.

* `choose` — all of them as a list.
* `foldChooseM` — a visit to each in turn, none of them kept. `foldChooseM_eq_foldlM` says that it
  is a fold over `choose`.
* `Combinations` — an enumeration of index lists that is asked for one at a time.
-/

namespace CaliforniaPoker

/-- The sublists of a list with `k` elements, in lexicographic order of positions. -/
def choose {α : Type} : Nat → List α → List (List α)
  | 0, _ => [[]]
  | _ + 1, [] => []
  | k + 1, x :: xs => (choose k xs).map (x :: ·) ++ choose (k + 1) xs

/-- Visits the sublists with `k` elements in order; `picked` holds, the last first, the elements
picked already. -/
def foldChooseM {m : Type → Type} [Monad m] {α σ : Type} (visit : σ → List α → m σ) :
    Nat → List α → List α → σ → m σ
  | 0, _, picked, s => visit s picked.reverse
  | _ + 1, [], _, s => pure s
  | k + 1, x :: xs, picked, s => do
    let s ← foldChooseM visit k xs (x :: picked) s
    foldChooseM visit (k + 1) xs picked s

/-- Visiting the sublists is folding over their list. -/
theorem foldChooseM_eq_foldlM {m : Type → Type} [Monad m] [LawfulMonad m] {α σ : Type}
    (visit : σ → List α → m σ) (k : Nat) (xs picked : List α) (s : σ) :
    foldChooseM visit k xs picked s =
      (choose k xs).foldlM (fun s chosen => visit s (picked.reverse ++ chosen)) s := by
  induction xs generalizing k picked s with
  | nil => cases k <;> simp [foldChooseM, choose]
  | cons x xs ih =>
    cases k with
    | zero => simp [foldChooseM, choose]
    | succ k => simp [foldChooseM, choose, ih, List.foldlM_append, List.foldlM_map]

/-- The number of `k`-element subsets of `n` things, multiplied up factor by factor. -/
def binomial (n k : Nat) : Nat :=
  if n < k then 0
  else (List.range (min k (n - k))).foldl (fun product i => product * (n - i) / (i + 1)) 1

/-- An enumeration of ascending index lists below `size`, asked for one at a time. -/
structure Combinations where
  /-- The indices lie below this number. -/
  size : Nat
  /-- The list that is given out next, if any is left. -/
  upcoming : Option (List Nat)

namespace Combinations

/-- The enumeration of the `k`-element index lists below `n`, from its start. -/
def ofSize (n k : Nat) : Combinations where
  size := n
  upcoming := if k ≤ n then some (List.range k) else none

/-- The next ascending index list of the same length below `n`: the last index that can still move
moves by one, and those after it follow closely. -/
def successor? (n : Nat) : List Nat → Option (List Nat)
  | [] => none
  | i :: rest =>
    match successor? n rest with
    | some moved => some (i :: moved)
    | none =>
      if i + 1 + rest.length < n then some (List.range' (i + 1) (rest.length + 1)) else none

/-- The next index list, or nothing once they are exhausted. -/
def next (c : Combinations) : Option (List Nat) × Combinations :=
  (c.upcoming, { c with upcoming := c.upcoming.bind (successor? c.size) })

/-- What the next `count` requests give. -/
def take (c : Combinations) : Nat → List (Option (List Nat))
  | 0 => []
  | count + 1 => c.next.1 :: take c.next.2 count

/-- Asks `count` times at most, until nothing is left: how many index lists came, counted on from
`seen`, and the last of them. -/
def drain : Nat → Combinations → Nat × Option (List Nat) → Nat × Option (List Nat)
  | 0, _, seen => seen
  | count + 1, c, seen =>
    match c.next with
    | (some chosen, c) => drain count c (seen.1 + 1, some chosen)
    | (none, _) => seen

/-- How many `k`-element index lists below `n` the enumeration gives, and the last of them. There
are no more than `binomial n k`, so asking once more finds it exhausted. -/
def countAndLast (n k : Nat) : Nat × Option (List Nat) :=
  drain (binomial n k + 1) (ofSize n k) (0, none)

end Combinations

end CaliforniaPoker
