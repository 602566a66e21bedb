import CaliforniaPoker.Proofs.Recorded
import CaliforniaPoker.Proofs.Weights.Text

/-!
# The weights that an environment gives

Nine fields are resolved in three layers: a variable that is set goes before the weights file, and
the file before the defaults. This file states what each layer gives and when weights are in order
without mentioning how they are found, and shows that loading succeeds exactly when the file can be
read, every variable that is set can be read, and the weights that result are in order.

The layers are taken field by field, and only the weights that result are validated: a value of the
file that would be refused does no harm under a variable, and a variable is never passed over.

## Main definitions

* `Environment.IsSet`: a variable counts as set to a text.
* `Environment.FileGives`: the fields that the weights file gives.
* `Environment.Layered`: the value of one field, and the layer that it comes from.
* `Environment.Resolves`: the same for all nine of them.
* `Environment.OverridesRead`: every variable that is set has the text of what its field holds.
* `Weights.IsValid`: the weights are in order.

## Main results

* `loadWeights_eq_ok_iff`: loading succeeds with the weights that the layers give, if they are in
  order.
* `loadWeights_layered`: when loading succeeds, and with what.
-/

namespace CaliforniaPoker

variable {env : Environment} {fields : FileWeights} {loaded : Loaded}

/-! ### Weights in order -/

/-- Weights are in order: no bonus is negative, and the position weights are neither negative nor
increasing. -/
structure Weights.IsValid (w : Weights) : Prop where
  bonus_nonneg : ∀ b, 0 ≤ (w.bonus b).toInt
  positions_nonneg : ∀ weight ∈ w.positions.toList, 0 ≤ weight.toInt
  positions_nonincreasing : w.positions.toList.Pairwise fun a b => b.toInt ≤ a.toInt

theorem PositionWeights.ordered_iff {p : PositionWeights} :
    p.Ordered ↔ (∀ weight ∈ p.toList, 0 ≤ weight.toInt) ∧
      p.toList.Pairwise fun a b => b.toInt ≤ a.toInt := by
  refine and_congr_right fun _ => ?_
  simp only [toList, List.pairwise_cons, List.forall_mem_cons, List.not_mem_nil, false_implies,
    implies_true, and_true, List.Pairwise.nil]
  omega

/-- The validation finds no fault exactly in weights that are in order. -/
theorem validate_eq_ok_iff {w : Weights} : validate w = .ok () ↔ w.IsValid := by
  rw [validate]
  split
  · next b hb =>
    have hneg : (w.bonus b).toInt < 0 := by simpa using List.find?_some hb
    refine iff_of_false (by simp) fun h => ?_
    exact absurd (h.bonus_nonneg b) (by omega)
  · next hnone =>
    have hbonus : ∀ b, 0 ≤ (w.bonus b).toInt := fun b => by
      simpa using List.find?_eq_none.mp hnone b b.mem_all
    by_cases hordered : w.positions.Ordered
    · obtain ⟨hnonneg, hpairwise⟩ := PositionWeights.ordered_iff.mp hordered
      exact iff_of_true (if_pos hordered) ⟨hbonus, hnonneg, hpairwise⟩
    · rw [if_neg hordered]
      exact iff_of_false (by simp) fun h =>
        hordered (PositionWeights.ordered_iff.mpr ⟨h.positions_nonneg, h.positions_nonincreasing⟩)

/-- The defaults are in order. -/
theorem isValid_defaultWeights : defaultWeights.IsValid := validate_eq_ok_iff.mp (by decide)

/-! ### What the layers give -/

namespace Environment

/-- A variable counts as set: its content is a text, and not the empty one. -/
def IsSet (env : Environment) (name text : String) : Prop :=
  env.content name = some (.text text) ∧ text ≠ ""

theorem IsSet.unique {name text text' : String} (h : env.IsSet name text)
    (h' : env.IsSet name text') : text = text' := by
  simpa using h.1.symm.trans h'.1

theorem setting?_eq_some_iff {name text : String} :
    env.setting? name = some text ↔ env.IsSet name text := by
  rw [setting?, IsSet]
  cases env.content name with
  | none => simp
  | some raw =>
    cases raw with
    | undecodable => simp
    | text content =>
      simp only [Option.some.injEq, RawText.text.injEq]
      by_cases hempty : content = ""
      · rw [if_pos hempty]
        refine iff_of_false (by simp) ?_
        rintro ⟨rfl, hne⟩
        exact hne hempty
      · rw [if_neg hempty, Option.some.injEq, iff_self_and]
        rintro rfl
        exact hempty

theorem setting?_eq_none_iff {name : String} :
    env.setting? name = none ↔ ∀ text, ¬ env.IsSet name text := by
  rw [Option.eq_none_iff_forall_ne_some]
  exact forall_congr' fun text => not_congr setting?_eq_some_iff

/-- The fields that the weights file of an environment gives: none if no file is named, else those
that the text of the file assigns. -/
inductive FileGives (env : Environment) : FileWeights → Prop where
  | unnamed (hunset : ∀ path, ¬ env.IsSet fileVariableName path) : FileGives env .empty
  | named {path content : String} {fields : FileWeights}
      (hset : env.IsSet fileVariableName path) (hfile : env.file path = some (.text content))
      (hread : readWeightsFile? content = some fields) : FileGives env fields

/-- Every variable that is set has the text of what its field holds. -/
structure OverridesRead (env : Environment) : Prop where
  bonus : ∀ (b : Bonus) text, env.IsSet b.overrideName text → ∃ w, IsWeightText text.toList w
  positions : ∀ text, env.IsSet positionsOverrideName text → ∃ p, IsPositionsText text.toList p

/-- The value of a field and where it comes from: the variable of this name if it is set, else the
file if it gives the field, else the default. -/
inductive Layered {α : Type} (env : Environment) (name : String) (IsText : List Char → α → Prop)
    (file : Option α) (default : α) : α → Source → Prop where
  | env {text : String} {value : α} (hset : env.IsSet name text)
      (htext : IsText text.toList value) : Layered env name IsText file default value .env
  | file {value : α} (hunset : ∀ text, ¬ env.IsSet name text) (hfile : file = some value) :
      Layered env name IsText file default value .file
  | default (hunset : ∀ text, ¬ env.IsSet name text) (hfile : file = none) :
      Layered env name IsText file default default .default

/-- Weights and their sources are what the layers give: each of the nine fields on its own is that
of its variable, of the file or of the defaults. -/
structure Resolves (env : Environment) (fields : FileWeights) (loaded : Loaded) : Prop where
  bonus : ∀ b, env.Layered b.overrideName IsWeightText (fields.bonus b) (defaultWeights.bonus b)
    (loaded.weights.bonus b) (loaded.sources.bonus b)
  positions : env.Layered positionsOverrideName IsPositionsText fields.positions
    defaultWeights.positions loaded.weights.positions loaded.sources.positions

/-- A field that the layers give a value has a variable that can be read, if it is set at all. -/
theorem Layered.exists_isText {α : Type} {name text : String} {IsText : List Char → α → Prop}
    {file : Option α} {default value : α} {source : Source}
    (h : env.Layered name IsText file default value source) (hset : env.IsSet name text) :
    ∃ value, IsText text.toList value := by
  cases h with
  | env hset' htext => exact ⟨value, hset.unique hset' ▸ htext⟩
  | file hunset => exact absurd hset (hunset text)
  | default hunset => exact absurd hset (hunset text)

theorem Resolves.overridesRead (h : env.Resolves fields loaded) : env.OverridesRead where
  bonus b _ hset := (h.bonus b).exists_isText hset
  positions _ hset := h.positions.exists_isText hset

/-- A field is resolved to what the layers give it, provided that its variable can be read. -/
theorem layered_iff_layer {α : Type} {name : String} {read : String → Option α}
    {IsText : List Char → α → Prop} {file : Option α} {default value : α} {source : Source}
    (hread : ∀ {text value}, read text = some value ↔ IsText text.toList value)
    (hset : ∀ text, env.IsSet name text → ∃ value, IsText text.toList value) :
    env.Layered name IsText file default value source ↔
      layer ((env.setting? name).bind read) file default = (value, source) := by
  cases hsetting : env.setting? name with
  | none =>
    have hunset := setting?_eq_none_iff.mp hsetting
    constructor
    · intro h
      cases h with
      | env hset' => exact absurd hset' (hunset _)
      | file _ hfile => rw [hfile]; rfl
      | default _ hfile => rw [hfile]; rfl
    · intro h
      cases file with
      | none => cases h; exact .default hunset rfl
      | some given => cases h; exact .file hunset rfl
  | some text =>
    have htext := setting?_eq_some_iff.mp hsetting
    obtain ⟨given, hgiven⟩ := hset text htext
    have hlayer : layer ((some text).bind read) file default = (given, .env) := by
      rw [Option.bind_some, hread.mpr hgiven, layer]
    rw [hlayer]
    constructor
    · intro h
      cases h with
      | env htext' hvalue =>
        rw [← htext.unique htext', ← hread, hread.mpr hgiven, Option.some.injEq] at hvalue
        rw [hvalue]
      | file hunset => exact absurd htext (hunset text)
      | default hunset => exact absurd htext (hunset text)
    · rintro ⟨⟩
      exact .env htext hgiven

/-- If every variable that is set can be read, the layers give one resolution of the fields. -/
theorem resolves_iff (h : env.OverridesRead) :
    env.Resolves fields loaded ↔ resolve env fields = loaded := by
  have hbonus (b : Bonus) (value : Int32) (source : Source) :
      env.Layered b.overrideName IsWeightText (fields.bonus b) (defaultWeights.bonus b) value
        source ↔ layer ((env.setting? b.overrideName).bind weightOfText?) (fields.bonus b)
          (defaultWeights.bonus b) = (value, source) :=
    layered_iff_layer weightOfText?_eq_some_iff (h.bonus b)
  have hpositions (value : PositionWeights) (source : Source) :
      env.Layered positionsOverrideName IsPositionsText fields.positions defaultWeights.positions
        value source ↔ layer ((env.setting? positionsOverrideName).bind positionsOfText?)
          fields.positions defaultWeights.positions = (value, source) :=
    layered_iff_layer positionsOfText?_eq_some_iff h.positions
  constructor
  · rintro ⟨hbonuses, hlast⟩
    simp only [hbonus] at hbonuses
    rw [hpositions] at hlast
    simp only [resolve, hbonuses, hlast]
  · rintro rfl
    exact ⟨fun b => (hbonus b _ _).mpr rfl, (hpositions _ _).mpr rfl⟩

end Environment

/-! ### Loading -/

theorem fileWeights_eq_ok_iff : fileWeights env = .ok fields ↔ env.FileGives fields := by
  constructor
  · intro h
    rw [fileWeights] at h
    split at h
    · next hsetting =>
      cases h
      exact .unnamed (Environment.setting?_eq_none_iff.mp hsetting)
    · next path hsetting =>
      split at h
      · next content hfile =>
        split at h
        · next given hread =>
          cases h
          exact .named (Environment.setting?_eq_some_iff.mp hsetting) hfile hread
        · cases h
      · cases h
  · rintro (hunset | ⟨hset, hfile, hread⟩)
    · rw [fileWeights, Environment.setting?_eq_none_iff.mpr hunset]
    · rw [fileWeights, Environment.setting?_eq_some_iff.mpr hset]
      simp only [hfile, hread]

/-- A variable is at no fault exactly when it can be read, if it is set at all. -/
private theorem fault_eq_none_iff {α : Type} {name : String} {read : String → Option α}
    {IsText : List Char → α → Prop} {fault : String → WeightFault}
    (hread : ∀ {text value}, read text = some value ↔ IsText text.toList value) :
    (match env.setting? name with
      | some raw => if (read raw).isSome then none else some (fault raw)
      | none => none) = none ↔
      ∀ text, env.IsSet name text → ∃ value, IsText text.toList value := by
  simp only [← Environment.setting?_eq_some_iff, ← hread, ← Option.isSome_iff_exists]
  cases env.setting? name with
  | none => simp
  | some raw => simp [← Option.isSome_iff_ne_none]

/-- No variable is at fault exactly when every one that is set can be read. -/
theorem overrideFault?_eq_none_iff : overrideFault? env = none ↔ env.OverridesRead := by
  simp only [overrideFault?, Option.or_eq_none_iff, List.findSome?_eq_none_iff]
  -- the two matches are that of the lemma up to unfolding only, so it is applied and not rewritten
  refine (and_congr (forall₂_congr fun b _ => fault_eq_none_iff weightOfText?_eq_some_iff)
    (fault_eq_none_iff positionsOfText?_eq_some_iff)).trans ?_
  exact ⟨fun h => ⟨fun b => h.1 b b.mem_all, h.2⟩, fun h => ⟨fun b _ => h.bonus b, h.positions⟩⟩

@[simp] theorem outcome_refuse {α : Type} (fault : WeightFault) :
    (refuse fault : Recorded LoadError α).outcome = .error (.invalid fault) := rfl

/-- Loading succeeds with weights and their sources exactly when the file gives its fields, the
layers give the weights, and these are in order. -/
theorem loadWeights_eq_ok_iff : (loadWeights env).outcome = .ok loaded ↔
    ∃ fields, env.FileGives fields ∧ env.Resolves fields loaded ∧ loaded.weights.IsValid := by
  simp only [loadWeights, Recorded.outcome_bind_eq_ok_iff, Recorded.outcome_ofExcept,
    fileWeights_eq_ok_iff]
  refine exists_congr fun fields => and_congr_right fun _ => ?_
  by_cases hread : env.OverridesRead
  · -- the layers give one resolution, and the validation decides on it
    rw [overrideFault?_eq_none_iff.mpr hread, Environment.resolves_iff hread]
    simp only
    cases hvalid : validate (resolve env fields).weights with
    | ok =>
      rw [Recorded.outcome_pure, Except.ok.injEq, iff_self_and]
      rintro rfl
      exact validate_eq_ok_iff.mp hvalid
    | error fault =>
      refine iff_of_false (by simp) ?_
      rintro ⟨rfl, hloaded⟩
      rw [validate_eq_ok_iff.mpr hloaded] at hvalid
      cases hvalid
  · -- a variable that cannot be read is refused, and the layers give its field no value
    obtain ⟨fault, hfault⟩ := Option.ne_none_iff_exists'.mp
      (fun h => hread (overrideFault?_eq_none_iff.mp h))
    rw [hfault]
    exact iff_of_false (by simp) fun h => hread h.1.overridesRead

/-- **Layered weights.** Loading succeeds exactly when no weights file is named or the named one can
be read, every variable that is set can be read, and the weights that the layers give are in order.
When it succeeds, each of the nine fields is, on its own, that of its variable if that is set, else
that of the file if the file gives it, else the default, and its source says which. -/
theorem loadWeights_layered (env : Environment) :
    ((∃ loaded, (loadWeights env).outcome = .ok loaded) ↔
      ∃ fields, env.FileGives fields ∧ env.OverridesRead ∧
        ∀ loaded, env.Resolves fields loaded → loaded.weights.IsValid) ∧
    ∀ loaded, (loadWeights env).outcome = .ok loaded →
      ∃ fields, env.FileGives fields ∧ env.Resolves fields loaded := by
  refine ⟨⟨?_, ?_⟩, fun loaded hok => ?_⟩
  · rintro ⟨loaded, hok⟩
    obtain ⟨fields, hfile, hresolves, hvalid⟩ := loadWeights_eq_ok_iff.mp hok
    have hread := hresolves.overridesRead
    refine ⟨fields, hfile, hread, fun other hother => ?_⟩
    rwa [← (Environment.resolves_iff hread).mp hother, (Environment.resolves_iff hread).mp hresolves]
  · rintro ⟨fields, hfile, hread, hvalid⟩
    have hresolves : env.Resolves fields (resolve env fields) :=
      (Environment.resolves_iff hread).mpr rfl
    exact ⟨_, loadWeights_eq_ok_iff.mpr ⟨fields, hfile, hresolves, hvalid _ hresolves⟩⟩
  · obtain ⟨fields, hfile, hresolves, -⟩ := loadWeights_eq_ok_iff.mp hok
    exact ⟨fields, hfile, hresolves⟩

/-- A variable hides a value of the file that would be refused; the file and the defaults give the
other fields. -/
example :
    let env : Environment := {
      content := fun name =>
        if name = fileVariableName then some (.text "weights.toml")
        else if name = Bonus.trips.overrideName then some (.text " +7 ")
        else none
      file := fun _ => some (.text "trips_bonus = -5\npair_bonus = 20") }
    ((loadWeights env).outcome.toOption.map fun loaded =>
      [Bonus.trips, .pair, .twoPair].map fun b => (loaded.weights.bonus b, loaded.sources.bonus b)) =
      some [(7, .env), (20, .file), (300, .default)] := by
  decide +kernel

end CaliforniaPoker
