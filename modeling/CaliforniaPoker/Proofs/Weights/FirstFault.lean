import CaliforniaPoker.Proofs.Weights.Loading

/-!
# The first fault of a configuration

Weights are loaded in stages, and each stage can find a fault: the weights file cannot be read or
is none, the text of a variable is no weight, or the weights that result are out of order. Any
number of faults can be there at once. This file says of each stage, on its own, when and how it
fails, and shows that loading fails with the fault of the first stage that does. A fault of the
weights is recorded, once and with what was rejected; faults of the file are not.

## Main definitions

* `LoadStage`: the stages of loading, `LoadStage.all` in their order.
* `Environment.FailsAt`: the error with which a stage fails.
* `Environment.FirstFault`: the error of the first stage that fails.
* `WeightFault.IsReported`: the wording of a fault and the fields of the warning for it.

## Main results

* `loadWeights_eq_error_iff`: loading fails with the error of the first stage that fails.
* `events_loadWeights`: what is recorded.
* `loadWeights_first_fault`: the error and the warning of a configuration with faults.
-/

namespace CaliforniaPoker

variable {env : Environment} {fields : FileWeights} {loaded : Loaded} {e : LoadError}

/-! ### The validation -/

/-- The validation finds the first fault that the weights have, bonus by bonus and then in the
position weights. -/
theorem validate_eq_error_iff {w : Weights} {fault : WeightFault} : validate w = .error fault ↔
    (Bonus.all.findSome? fun b =>
        if (w.bonus b).toInt < 0 then some (.negativeBonus b (w.bonus b)) else none).or
      (if w.positions.Ordered then none else some (.unorderedPositions w.positions)) = some fault := by
  rw [validate]
  generalize Bonus.all = bonuses
  induction bonuses with
  | nil => by_cases horder : w.positions.Ordered <;> simp [horder]
  | cons b bonuses ih =>
    rw [List.find?_cons, List.findSome?_cons]
    by_cases hneg : (w.bonus b).toInt < 0
    · simp [hneg]
    · simpa [hneg] using ih

/-! ### Stages -/

/-- The stages of loading. -/
inductive LoadStage where
  /-- The weights file is read as a text. -/
  | fileText
  /-- The fields of the weights file are read from its text. -/
  | fileFields
  /-- The variable of a bonus is read. -/
  | override (b : Bonus)
  /-- The variable of the position weights is read. -/
  | positionsOverride
  /-- A bonus is checked for its sign. -/
  | sign (b : Bonus)
  /-- The position weights are checked for their signs and their order. -/
  | order

namespace LoadStage

/-- The stages that concern the weights file. -/
def file : List LoadStage := [fileText, fileFields]

/-- The stages that concern the variables of the fields. -/
def overrides : List LoadStage := Bonus.all.map override ++ [positionsOverride]

/-- The stages that validate the weights that the layers give. -/
def checks : List LoadStage := Bonus.all.map sign ++ [order]

/-- All stages in their order. -/
def all : List LoadStage := file ++ (overrides ++ checks)

end LoadStage

namespace Environment

/-- A stage fails with an error. Only if all variables that are set can be read do the layers give
weights, so that no check can fail otherwise. -/
inductive FailsAt (env : Environment) : LoadStage → LoadError → Prop where
  | fileText {path : String} (hset : env.IsSet fileVariableName path)
      (hfile : ∀ content, env.file path ≠ some (.text content)) :
      FailsAt env .fileText .unreadableFile
  | fileFields {path content : String} (hset : env.IsSet fileVariableName path)
      (hfile : env.file path = some (.text content)) (hread : readWeightsFile? content = none) :
      FailsAt env .fileFields .malformedFile
  | override {b : Bonus} {raw : String} (hset : env.IsSet b.overrideName raw)
      (htext : ∀ w, ¬ IsWeightText raw.toList w) :
      FailsAt env (.override b) (.invalid (.notInteger b raw))
  | positionsOverride {raw : String} (hset : env.IsSet positionsOverrideName raw)
      (htext : ∀ p, ¬ IsPositionsText raw.toList p) :
      FailsAt env .positionsOverride (.invalid (.notFourIntegers raw))
  | sign {fields : FileWeights} {loaded : Loaded} {b : Bonus} (hfile : env.FileGives fields)
      (hresolves : env.Resolves fields loaded) (hneg : (loaded.weights.bonus b).toInt < 0) :
      FailsAt env (.sign b) (.invalid (.negativeBonus b (loaded.weights.bonus b)))
  | order {fields : FileWeights} {loaded : Loaded} (hfile : env.FileGives fields)
      (hresolves : env.Resolves fields loaded)
      (horder : ¬ ((∀ weight ∈ loaded.weights.positions.toList, 0 ≤ weight.toInt) ∧
        loaded.weights.positions.toList.Pairwise fun a b => b.toInt ≤ a.toInt)) :
      FailsAt env .order (.invalid (.unorderedPositions loaded.weights.positions))

/-- The error of the first of some stages that fails. -/
inductive FirstFault (env : Environment) : List LoadStage → LoadError → Prop where
  | here {stage : LoadStage} {later : List LoadStage} {e : LoadError}
      (hfails : env.FailsAt stage e) : FirstFault env (stage :: later) e
  | later {stage : LoadStage} {later : List LoadStage} {e : LoadError}
      (hpasses : ∀ e', ¬ env.FailsAt stage e') (hlater : FirstFault env later e) :
      FirstFault env (stage :: later) e

variable {stage : LoadStage} {stages later : List LoadStage}

theorem not_firstFault_nil : ¬ env.FirstFault [] e := nofun

theorem firstFault_cons_iff : env.FirstFault (stage :: later) e ↔
    env.FailsAt stage e ∨ (∀ e', ¬ env.FailsAt stage e') ∧ env.FirstFault later e := by
  constructor
  · rintro (hfails | ⟨hpasses, hlater⟩)
    · exact .inl hfails
    · exact .inr ⟨hpasses, hlater⟩
  · rintro (hfails | ⟨hpasses, hlater⟩)
    · exact .here hfails
    · exact .later hpasses hlater

theorem firstFault_append_iff : env.FirstFault (stages ++ later) e ↔
    env.FirstFault stages e ∨ (∀ e', ¬ env.FirstFault stages e') ∧ env.FirstFault later e := by
  induction stages with
  | nil => simp [not_firstFault_nil]
  | cons stage stages ih =>
    simp only [List.cons_append, firstFault_cons_iff, ih]
    grind

/-- The first fault of the stages for the bonuses and of one more stage is the first that is found
bonus by bonus. -/
theorem firstFault_bonuses_iff {stageOf : Bonus → LoadStage} {last : LoadStage}
    {fault? : Bonus → Option WeightFault} {lastFault? : Option WeightFault}
    (hbonus : ∀ b e, env.FailsAt (stageOf b) e ↔ ∃ fault, fault? b = some fault ∧ .invalid fault = e)
    (hlast : ∀ e, env.FailsAt last e ↔ ∃ fault, lastFault? = some fault ∧ .invalid fault = e)
    (bonuses : List Bonus) : env.FirstFault (bonuses.map stageOf ++ [last]) e ↔
      ∃ fault, (bonuses.findSome? fault?).or lastFault? = some fault ∧ .invalid fault = e := by
  induction bonuses with
  | nil =>
    rw [List.map_nil, List.nil_append, firstFault_cons_iff, hlast, List.findSome?_nil,
      Option.none_or]
    simp [not_firstFault_nil]
  | cons b bonuses ih =>
    rw [List.map_cons, List.cons_append, firstFault_cons_iff, ih, List.findSome?_cons]
    simp only [hbonus]
    cases fault? b <;> simp

/-! ### The file -/

/-- The weights file is at fault exactly when a stage that concerns it fails. -/
theorem firstFault_file_iff : env.FirstFault LoadStage.file e ↔ fileWeights env = .error e := by
  simp only [LoadStage.file, firstFault_cons_iff, not_firstFault_nil, and_false, or_false]
  constructor
  · rintro (hfails | ⟨-, hfails⟩)
    · cases hfails with
      | fileText hset hfile => simp only [fileWeights, setting?_eq_some_iff.mpr hset]
    · cases hfails with
      | fileFields hset hfile hread =>
        simp only [fileWeights, setting?_eq_some_iff.mpr hset, hfile, hread]
  · intro h
    rw [fileWeights] at h
    split at h
    · cases h
    · next path hsetting =>
      have hset := setting?_eq_some_iff.mp hsetting
      split at h
      · next content hfile =>
        split at h
        · cases h
        · next hread =>
          cases h
          refine .inr ⟨?_, .fileFields hset hfile hread⟩
          rintro e' ⟨hset', hnone⟩
          exact hnone content (hset.unique hset' ▸ hfile)
      · next hnone =>
        cases h
        exact .inl (.fileText hset hnone)

/-! ### The variables -/

/-- A variable is at fault exactly when it is set to a text that gives nothing. -/
private theorem exists_fault_iff {α : Type} {name : String} {read : String → Option α}
    {IsText : List Char → α → Prop} {fault : String → WeightFault}
    (hread : ∀ {text value}, read text = some value ↔ IsText text.toList value) :
    (∃ found, (match env.setting? name with
      | some raw => if (read raw).isSome then none else some (fault raw)
      | none => none) = some found ∧ LoadError.invalid found = e) ↔
      ∃ raw, env.IsSet name raw ∧ (∀ value, ¬ IsText raw.toList value) ∧ .invalid (fault raw) = e := by
  simp only [← setting?_eq_some_iff, ← hread, ← Option.eq_none_iff_forall_ne_some]
  cases env.setting? name with
  | none => simp
  | some raw => cases hraw : read raw <;> simp [hraw]

/-- A variable is at fault exactly when a stage that concerns one fails. -/
theorem firstFault_overrides_iff : env.FirstFault LoadStage.overrides e ↔
    ∃ fault, overrideFault? env = some fault ∧ .invalid fault = e := by
  refine firstFault_bonuses_iff (fun b e => ?_) (fun e => ?_) Bonus.all
  · refine Iff.trans ?_ (exists_fault_iff weightOfText?_eq_some_iff).symm
    constructor
    · intro hfails
      cases hfails with
      | override hset htext => exact ⟨_, hset, htext, rfl⟩
    · rintro ⟨raw, hset, htext, rfl⟩
      exact .override hset htext
  · refine Iff.trans ?_ (exists_fault_iff positionsOfText?_eq_some_iff).symm
    constructor
    · intro hfails
      cases hfails with
      | positionsOverride hset htext => exact ⟨_, hset, htext, rfl⟩
    · rintro ⟨raw, hset, htext, rfl⟩
      exact .positionsOverride hset htext

/-! ### The checks -/

/-- If the file gives its fields and all variables can be read, the layers give one resolution. -/
private theorem resolves_iff_of_eq_ok (hfile : fileWeights env = .ok fields)
    (hnone : overrideFault? env = none) :
    (∃ given, env.FileGives given ∧ env.Resolves given loaded) ↔ resolve env fields = loaded := by
  simp only [← fileWeights_eq_ok_iff, hfile, Except.ok.injEq, exists_eq_left']
  exact resolves_iff (overrideFault?_eq_none_iff.mp hnone)

/-- Given the fields of the file and variables that can all be read, a check fails exactly when the
validation finds a fault. -/
theorem firstFault_checks_iff (hfile : fileWeights env = .ok fields)
    (hnone : overrideFault? env = none) : env.FirstFault LoadStage.checks e ↔
      ∃ fault, validate (resolve env fields).weights = .error fault ∧ .invalid fault = e := by
  simp only [validate_eq_error_iff]
  refine firstFault_bonuses_iff (fun b e => ?_) (fun e => ?_) Bonus.all
  · constructor
    · intro hfails
      cases hfails with
      | sign hgives hresolves hneg =>
        obtain rfl := (resolves_iff_of_eq_ok hfile hnone).mp ⟨_, hgives, hresolves⟩
        exact ⟨_, if_pos hneg, rfl⟩
    · rintro ⟨fault, hfault, rfl⟩
      obtain ⟨given, hgives, hresolves⟩ := (resolves_iff_of_eq_ok hfile hnone).mpr rfl
      split_ifs at hfault with hneg
      obtain rfl := Option.some.inj hfault
      exact .sign hgives hresolves hneg
  · constructor
    · intro hfails
      cases hfails with
      | order hgives hresolves horder =>
        obtain rfl := (resolves_iff_of_eq_ok hfile hnone).mp ⟨_, hgives, hresolves⟩
        exact ⟨_, if_neg (mt PositionWeights.ordered_iff.mp horder), rfl⟩
    · rintro ⟨fault, hfault, rfl⟩
      obtain ⟨given, hgives, hresolves⟩ := (resolves_iff_of_eq_ok hfile hnone).mpr rfl
      split_ifs at hfault with horder
      obtain rfl := Option.some.inj hfault
      exact .order hgives hresolves (mt PositionWeights.ordered_iff.mpr horder)

end Environment

/-! ### Loading -/

/-- One stage after another decides what loading comes to. -/
theorem loadWeights_eq (env : Environment) : loadWeights env =
    match fileWeights env with
    | .error e => .fail e
    | .ok fields =>
      match overrideFault? env with
      | some fault => refuse fault
      | none =>
        match validate (resolve env fields).weights with
        | .error fault => refuse fault
        | .ok () => pure (resolve env fields) := by
  rw [loadWeights]
  cases fileWeights env <;> rfl

/-- Loading fails exactly with the error of the first stage that fails. -/
theorem loadWeights_eq_error_iff :
    (loadWeights env).outcome = .error e ↔ env.FirstFault LoadStage.all e := by
  rw [loadWeights_eq, LoadStage.all, Environment.firstFault_append_iff,
    Environment.firstFault_append_iff]
  simp only [Environment.firstFault_file_iff, Environment.firstFault_overrides_iff]
  cases hfile : fileWeights env with
  | error e' => simp
  | ok fields =>
    cases hfault : overrideFault? env with
    | some fault => simp
    | none =>
      simp only [Environment.firstFault_checks_iff hfile hfault]
      cases validate (resolve env fields).weights <;> simp

/-! ### What is recorded -/

/-- The wording of a fault, and the fields of the warning for it: both give what was rejected, the
text of a variable, a bonus with its value, or the position weights. Only the message quotes a
text, and only the warning quotes a name. -/
inductive WeightFault.IsReported : WeightFault → String → List (String × String) → Prop where
  | notInteger (b : Bonus) (raw : String) : IsReported (.notInteger b raw)
      ("invalid weights: " ++ (b.overrideName ++ " must be an integer, got " ++ quoted raw))
      [("message", "rejected weight override"), ("var", quoted b.overrideName), ("value", raw)]
  | notFourIntegers (raw : String) : IsReported (.notFourIntegers raw)
      ("invalid weights: " ++ ("position weights must be four integers, got " ++ quoted raw))
      [("message", "rejected " ++ positionsOverrideName), ("value", raw)]
  | negativeBonus (b : Bonus) (value : Int32) : IsReported (.negativeBonus b value)
      ("invalid weights: " ++ (b.field ++ " must be >= 0, got " ++ value.toInt.repr))
      [("message", "rejected negative bonus"), ("field", quoted b.field),
        ("value", value.toInt.repr)]
  | unorderedPositions (p : PositionWeights) : IsReported (.unorderedPositions p)
      ("invalid weights: " ++
        (positionsField ++ " must be non-negative and non-increasing, got " ++ p.text))
      [("message", "rejected position weights"), ("weights", p.text)]

theorem WeightFault.isReported (fault : WeightFault) :
    fault.IsReported (LoadError.invalid fault).message (Event.refused fault).fields := by
  cases fault <;> constructor

theorem fileWeights_ne_invalid (fault : WeightFault) :
    fileWeights env ≠ .error (.invalid fault) := by
  rw [Ne, ← Environment.firstFault_file_iff]
  rintro (hfails | ⟨-, hfails | ⟨-, hlater⟩⟩)
  · cases hfails
  · cases hfails
  · exact Environment.not_firstFault_nil hlater

/-- A fault of the weights is recorded, and nothing else is. -/
theorem events_loadWeights (env : Environment) : (loadWeights env).events =
    match (loadWeights env).outcome with
    | .error (.invalid fault) => [.refused fault]
    | _ => [] := by
  rw [loadWeights_eq]
  cases hfile : fileWeights env with
  | error e =>
    cases e with
    | invalid fault => exact absurd hfile (fileWeights_ne_invalid fault)
    | unreadableFile | malformedFile => rfl
  | ok fields =>
    simp only
    cases overrideFault? env with
    | some fault => rfl
    | none =>
      simp only
      cases validate (resolve env fields).weights <;> rfl

/-- **The first fault decides.** Loading fails exactly if a stage of it fails, and then with the
error of the first stage that does: the file is read and parsed, then the variables of the bonuses
and of the position weights are read, in this order, and then the bonuses and the position weights
that result are checked. For a fault of the weights there is just one event, a warning, which gives
what was rejected as the message of the error does. For other errors, and when loading succeeds,
there is none. -/
theorem loadWeights_first_fault (env : Environment) :
    (∀ e, (loadWeights env).outcome = .error e ↔ env.FirstFault LoadStage.all e) ∧
    (∀ fault, (loadWeights env).outcome = .error (.invalid fault) →
      ∃ warning, (loadWeights env).events = [warning] ∧ warning.level = .warn ∧
        fault.IsReported (LoadError.invalid fault).message warning.fields) ∧
    ((∀ fault, (loadWeights env).outcome ≠ .error (.invalid fault)) →
      (loadWeights env).events = []) := by
  refine ⟨fun e => loadWeights_eq_error_iff, fun fault herror => ?_, fun hother => ?_⟩
  · refine ⟨.refused fault, ?_, rfl, fault.isReported⟩
    rw [events_loadWeights, herror]
  · rw [events_loadWeights]
    split
    · next fault herror => exact absurd herror (hother fault)
    · rfl

/-- A variable with a bad bonus, another with bad position weights, and a negative bonus in the
weights file. -/
def threeFaults : Environment where
  content name :=
    if name = fileVariableName then some (.text "weights.toml")
    else if name = Bonus.pair.overrideName then some (.text "lots")
    else if name = positionsOverrideName then some (.text "1,2")
    else none
  file _ := some (.text "trips_bonus = -5")

/-- Of the three faults that of the bad bonus is the first, although the negative one belongs to a
field before it. -/
theorem loadWeights_first_fault_pair :
    (loadWeights threeFaults).outcome = .error (.invalid (.notInteger .pair "lots")) ∧
      threeFaults.FirstFault LoadStage.all (.invalid (.notInteger .pair "lots")) ∧
      ∃ warning, (loadWeights threeFaults).events = [warning] ∧ warning.level = .warn ∧
        WeightFault.IsReported (.notInteger .pair "lots")
          (LoadError.invalid (.notInteger .pair "lots")).message warning.fields := by
  have hfault : (match (loadWeights threeFaults).outcome with
      | .error e => some e
      | .ok _ => none) = some (.invalid (.notInteger .pair "lots")) := by
    decide +kernel
  have herror : (loadWeights threeFaults).outcome = .error (.invalid (.notInteger .pair "lots")) := by
    split at hfault
    · next e he => rw [he, Option.some.inj hfault]
    · cases hfault
  obtain ⟨hfirst, hwarning, -⟩ := loadWeights_first_fault threeFaults
  exact ⟨herror, (hfirst _).mp herror, hwarning _ herror⟩

end CaliforniaPoker
