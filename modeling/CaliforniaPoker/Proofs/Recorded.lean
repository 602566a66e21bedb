import CaliforniaPoker.Event

/-!
# Outcomes and events of recorded computations

What a recorded computation comes to does not depend on its events: the outcome of a sequence of
computations is determined by the outcomes of its parts. Its events are those of its parts, one
after the other, as far as it comes.

## Main results

* `Recorded.outcome_bind_eq_ok_iff`: a sequence succeeds when both of its parts do.
* `Recorded.outcome_bind_eq_error_iff`: a sequence fails with its first part or with its second.
* `Recorded.outcome_mapM`: a computation that always succeeds does so with a whole list.
* `Recorded.events_bind_of_ok`, `Recorded.events_bind_of_error`: the events of a sequence.
* `Recorded.events_mapM`: the events of a computation that succeeds with a whole list.
-/

namespace CaliforniaPoker.Recorded

variable {ε ε' α β : Type}

/-! ### Outcomes -/

@[simp] theorem outcome_pure (a : α) : (pure a : Recorded ε α).outcome = .ok a := rfl

@[simp] theorem outcome_ofExcept (outcome : Except ε α) : (ofExcept outcome).outcome = outcome :=
  rfl

@[simp] theorem outcome_fail (e : ε) : (fail e : Recorded ε α).outcome = .error e := rfl

@[simp] theorem outcome_record (event : Event) :
    (record event : Recorded ε Unit).outcome = .ok () := rfl

/-- The second part of a sequence decides once the first has succeeded. -/
theorem outcome_bind_of_ok {r : Recorded ε α} {f : α → Recorded ε β} {a : α}
    (h : r.outcome = .ok a) : (r >>= f).outcome = (f a).outcome := by
  change (r.andThen f).outcome = _
  rw [andThen, h]

/-- A sequence fails as its first part does. -/
theorem outcome_bind_of_error {r : Recorded ε α} {f : α → Recorded ε β} {e : ε}
    (h : r.outcome = .error e) : (r >>= f).outcome = .error e := by
  change (r.andThen f).outcome = _
  rw [andThen, h]

/-- A sequence succeeds exactly when its first part does and then its second. -/
theorem outcome_bind_eq_ok_iff {r : Recorded ε α} {f : α → Recorded ε β} {b : β} :
    (r >>= f).outcome = .ok b ↔ ∃ a, r.outcome = .ok a ∧ (f a).outcome = .ok b := by
  cases h : r.outcome with
  | ok a =>
    rw [outcome_bind_of_ok h]
    simp
  | error e =>
    rw [outcome_bind_of_error h]
    simp

/-- A sequence fails exactly when its first part does, or its second after the first has
succeeded. -/
theorem outcome_bind_eq_error_iff {r : Recorded ε α} {f : α → Recorded ε β} {e : ε} :
    (r >>= f).outcome = .error e ↔
      r.outcome = .error e ∨ ∃ a, r.outcome = .ok a ∧ (f a).outcome = .error e := by
  cases h : r.outcome with
  | ok a =>
    rw [outcome_bind_of_ok h]
    simp
  | error e' =>
    rw [outcome_bind_of_error h]
    simp

/-- A computation that succeeds with each element of a list succeeds with the list. -/
theorem outcome_mapM {f : α → Recorded ε β} {g : α → β} (h : ∀ x, (f x).outcome = .ok (g x))
    (xs : List α) : (xs.mapM f).outcome = .ok (xs.map g) := by
  induction xs with
  | nil => rfl
  | cons x xs ih =>
    rw [List.mapM_cons, outcome_bind_of_ok (h x), outcome_bind_of_ok ih, outcome_pure,
      List.map_cons]

/-! ### Events -/

@[simp] theorem events_pure (a : α) : (pure a : Recorded ε α).events = [] := rfl

@[simp] theorem events_ofExcept (outcome : Except ε α) : (ofExcept outcome).events = [] := rfl

@[simp] theorem events_fail (e : ε) : (fail e : Recorded ε α).events = [] := rfl

@[simp] theorem events_record (event : Event) :
    (record event : Recorded ε Unit).events = [event] := rfl

/-- Once the first part of a sequence has succeeded, the events of the second follow its own. -/
theorem events_bind_of_ok {r : Recorded ε α} {f : α → Recorded ε β} {a : α}
    (h : r.outcome = .ok a) : (r >>= f).events = r.events ++ (f a).events := by
  change (r.andThen f).events = _
  rw [andThen, h]

/-- A sequence whose first part fails records nothing more. -/
theorem events_bind_of_error {r : Recorded ε α} {f : α → Recorded ε β} {e : ε}
    (h : r.outcome = .error e) : (r >>= f).events = r.events := by
  change (r.andThen f).events = _
  rw [andThen, h]

/-- A computation that succeeds with each element of a list records their events in turn. -/
theorem events_mapM {f : α → Recorded ε β} {g : α → β} (h : ∀ x, (f x).outcome = .ok (g x))
    (xs : List α) : (xs.mapM f).events = xs.flatMap fun x => (f x).events := by
  induction xs with
  | nil => rfl
  | cons x xs ih =>
    rw [List.mapM_cons, events_bind_of_ok (h x), events_bind_of_ok (outcome_mapM h xs), events_pure,
      List.append_nil, ih, List.flatMap_cons]

end CaliforniaPoker.Recorded
