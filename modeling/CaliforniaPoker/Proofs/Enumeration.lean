import CaliforniaPoker.Proofs.Combinations

/-!
# The enumeration of index lists

An enumeration of combinations keeps only the index list that it gives out next and finds the one
after it by moving the last index that can still move. This file shows that nothing is skipped on
the way: what the enumeration gives out, request after request, is the list of all combinations of
the indices.

## Main definitions

* `Combinations.Gives`: the lists that are given out from an upcoming one until none is left.

## Main results

* `Combinations.successor?_eq_some_iff`, `Combinations.successor?_eq_none_iff`: one step moves the
  last index that can move, and there is none after the last list.
* `Combinations.gives_choose`: what is given out is the list of combinations.
* `Combinations.take_ofSize`: the answers to any number of requests.
* `Combinations.take_ofSize_enumerates`: all ascending index lists are given out, once each and in
  lexicographic order, and then nothing.
-/

namespace CaliforniaPoker.Combinations

variable {n k : Nat} {indices moved : List Nat} {lists more : List (List Nat)}

/-! ### One step -/

/-- As long as a later index can move, the first one stays. -/
theorem successor?_cons_of_eq_some (i : Nat) (h : successor? n indices = some moved) :
    successor? n (i :: indices) = some (i :: moved) := by
  rw [successor?, h]

/-- When no later index can move, the first one does if there is room behind it. -/
theorem successor?_cons_of_eq_none (i : Nat) (h : successor? n indices = none) :
    successor? n (i :: indices) = if i + 1 + indices.length < n
      then some (List.range' (i + 1) (indices.length + 1)) else none := by
  rw [successor?, h]

/-- There is no further list exactly when no index has room to move. -/
theorem successor?_eq_none_iff : successor? n indices = none ↔
    ∀ before i after, indices = before ++ i :: after → n ≤ i + 1 + after.length := by
  induction indices with
  | nil =>
    refine iff_of_true rfl fun before i after h => ?_
    exact absurd h.symm (List.append_ne_nil_of_right_ne_nil _ (List.cons_ne_nil _ _))
  | cons i rest ih =>
    constructor
    · intro h before j after hsplit
      cases hrest : successor? n rest with
      | some moved =>
        rw [successor?_cons_of_eq_some i hrest] at h
        exact nomatch h
      | none =>
        rw [successor?_cons_of_eq_none i hrest, ite_eq_right_iff] at h
        cases before with
        | nil =>
          obtain ⟨rfl, rfl⟩ := List.cons.inj hsplit
          exact Nat.le_of_not_lt fun hlt => nomatch h hlt
        | cons _ before => exact ih.mp hrest before j after (List.cons.inj hsplit).2
    · intro h
      have hrest : successor? n rest = none :=
        ih.mpr fun before j after hsplit => h (i :: before) j after (by rw [hsplit, List.cons_append])
      rw [successor?_cons_of_eq_none i hrest, if_neg (Nat.not_lt.mpr (h [] i rest rfl))]

/-- The next list comes from moving the last index that has room, those behind it following
closely. -/
theorem successor?_eq_some_iff : successor? n indices = some moved ↔
    ∃ before i after, indices = before ++ i :: after ∧ i + 1 + after.length < n ∧
      (∀ before' j after', after = before' ++ j :: after' → n ≤ j + 1 + after'.length) ∧
      moved = before ++ List.range' (i + 1) (after.length + 1) := by
  simp only [← successor?_eq_none_iff]
  constructor
  · intro h
    induction indices generalizing moved with
    | nil => exact nomatch h
    | cons i rest ih =>
      cases hrest : successor? n rest with
      | some moved' =>
        rw [successor?_cons_of_eq_some i hrest, Option.some.injEq] at h
        obtain ⟨before, j, after, rfl, hroom, hlast, rfl⟩ := ih hrest
        exact ⟨i :: before, j, after, rfl, hroom, hlast, h.symm⟩
      | none =>
        rw [successor?_cons_of_eq_none i hrest] at h
        split_ifs at h with hroom
        exact ⟨[], i, rest, rfl, hroom, hrest, (Option.some.inj h).symm⟩
  · rintro ⟨before, i, after, rfl, hroom, hlast, rfl⟩
    induction before with
    | nil => rw [List.nil_append, successor?_cons_of_eq_none i hlast, if_pos hroom, List.nil_append]
    | cons j before ih => exact successor?_cons_of_eq_some j ih

/-! ### All steps -/

/-- The lists that are given out from an upcoming one on, until none is left. -/
inductive Gives (n : Nat) : Option (List Nat) → List (List Nat) → Prop
  | done : Gives n none []
  | next {indices : List Nat} {lists : List (List Nat)}
      (h : Gives n (successor? n indices) lists) : Gives n (some indices) (indices :: lists)

/-- With one more index in front, the lists are given out one by one as before; after the last of
them this index moves. -/
theorem Gives.cons_append {i : Nat} (hgives : Gives n (some indices) lists)
    (hlength : ∀ l ∈ lists, l.length = k)
    (hmore : Gives n (if i + 1 + k < n then some (List.range' (i + 1) (k + 1)) else none) more) :
    Gives n (some (i :: indices)) (lists.map (i :: ·) ++ more) := by
  induction lists generalizing indices with
  | nil => exact nomatch hgives
  | cons first lists ih =>
    obtain ⟨hfirst, hrest⟩ := List.forall_mem_cons.mp hlength
    cases hgives with
    | next hgives =>
      refine .next ?_
      cases hnext : successor? n first with
      | some moved =>
        rw [hnext] at hgives
        rw [successor?_cons_of_eq_some i hnext]
        exact ih hgives hrest
      | none =>
        rw [hnext] at hgives
        cases hgives
        rw [successor?_cons_of_eq_none i hnext, hfirst]
        exact hmore

/-- From the first list on, all combinations are given out. -/
theorem gives_choose {start room : Nat} (hn : start + room = n) :
    Gives n (if k ≤ room then some (List.range' start k) else none)
      (choose k (List.range' start room)) := by
  induction room generalizing k start with
  | zero =>
    cases k with
    | zero => exact .next .done
    | succ k => exact .done
  | succ room ih =>
    cases k with
    | zero => exact .next .done
    | succ k =>
      have hstart : start + 1 + room = n := by omega
      have hindices : List.range' start (room + 1) = start :: List.range' (start + 1) room :=
        List.range'_succ
      rw [hindices, choose]
      by_cases hk : k ≤ room
      · rw [if_pos (Nat.succ_le_succ hk), List.range'_succ]
        have hgives := ih (k := k) hstart
        rw [if_pos hk] at hgives
        refine hgives.cons_append (fun l hl => (mem_choose_iff.mp hl).2) ?_
        -- the first index can move exactly when there are lists without it
        have hroom : start + 1 + k < n ↔ k + 1 ≤ room := by omega
        simp only [hroom]
        exact ih hstart
      · have hgives := ih (k := k + 1) hstart
        have hempty := ih (k := k) hstart
        rw [if_neg hk] at hempty
        rw [if_neg (by omega)] at hgives ⊢
        cases hchoose : choose k (List.range' (start + 1) room) with
        | nil => exact hgives
        | cons l lists =>
          rw [hchoose] at hempty
          cases hempty

/-! ### The answers to the requests -/

/-- What is given out are the answers to the requests; all later ones are answered by nothing. -/
theorem Gives.take_eq {c : Combinations} (h : Gives c.size c.upcoming lists) (count : Nat) :
    c.take count = (List.range count).map (lists[·]?) := by
  induction count generalizing c lists with
  | zero => rfl
  | succ count ih =>
    obtain ⟨size, upcoming⟩ := c
    rw [take, List.range_succ_eq_map, List.map_cons, List.map_map]
    cases h with
    | done =>
      rw [ih .done]
      rfl
    | next h =>
      rw [ih h]
      rfl

/-- From its start on, an enumeration gives out the combinations of the indices. -/
theorem gives_ofSize (n k : Nat) :
    Gives n (ofSize n k).upcoming (choose k (List.range n)) := by
  rw [ofSize, List.range_eq_range', List.range_eq_range']
  exact gives_choose (Nat.zero_add n)

/-- The answers to any number of requests are the combinations, then nothing. -/
theorem take_ofSize (n k count : Nat) :
    (ofSize n k).take count = (List.range count).map ((choose k (List.range n))[·]?) :=
  (gives_ofSize n k).take_eq count

/-- **The enumeration is complete and in order.** Request after request, the enumeration gives out
the lists of `k` ascending indices below `n`, all of them, in strictly ascending lexicographic order
and hence each once; every further request is answered by nothing. For `k = 0` there is just the
empty list, and there are no lists exactly for `k` above `n`. -/
theorem take_ofSize_enumerates (n k : Nat) : ∃ lists : List (List Nat),
    (∀ count, (ofSize n k).take count = (List.range count).map (lists[·]?)) ∧
      lists.Pairwise (· < ·) ∧
      (∀ indices, indices ∈ lists ↔
        indices.Pairwise (· < ·) ∧ (∀ i ∈ indices, i < n) ∧ indices.length = k) ∧
      (lists = [[]] ↔ k = 0) ∧ (lists = [] ↔ n < k) := by
  refine ⟨choose k (List.range n), take_ofSize n k, ?_, fun _ => mem_choose_range_iff, ?_, ?_⟩
  · have horder : (choose k (List.range n)).Pairwise fun ys zs => ys.map id < zs.map id :=
      pairwise_choose List.pairwise_lt_range
    simpa only [List.map_id] using horder
  · refine ⟨fun h => ?_, fun h => by rw [h, choose]⟩
    have hmem : [] ∈ choose k (List.range n) := h ▸ List.mem_singleton_self _
    exact (mem_choose_iff.mp hmem).2.symm
  · rw [List.eq_nil_iff_forall_not_mem]
    constructor
    · intro h
      by_contra hk
      refine h (List.range k) (mem_choose_range_iff.mpr ⟨List.pairwise_lt_range, ?_, ?_⟩)
      · exact fun i hi => (List.mem_range.mp hi).trans_le (Nat.le_of_not_lt hk)
      · exact List.length_range
    · intro hk l hl
      obtain ⟨hsub, hlength⟩ := mem_choose_iff.mp hl
      have hle := hsub.length_le
      rw [hlength, List.length_range] at hle
      exact Nat.not_lt.mpr hle hk

end CaliforniaPoker.Combinations
