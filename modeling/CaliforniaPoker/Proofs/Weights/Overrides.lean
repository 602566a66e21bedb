import CaliforniaPoker.Proofs.Weights.Loading

/-!
# Weights that variables carry

The nine variables can carry any weights that are in order: when each is set to the decimal form of
what its field holds, loading gives back these weights and nothing else. A weights file may be named
besides, as long as it is one; none of what it says is taken over, not even a value that would be
refused by itself.

## Main definitions

* `Environment.set`, `Environment.setAll`: variables are set.
* `Weights.IsCarriedBy`: texts for the nine variables that give the weights.
* `overrides`: the nine variables with texts for them.

## Main results

* `Environment.content_setAll_of_mem`: what a variable holds after some have been set.
* `loadWeights_setAll_overrides`: weights that the variables carry are loaded.
-/

namespace CaliforniaPoker

/-! ### Setting variables -/

namespace Environment

variable {env : Environment} {name other text : String} {settings : List (String × String)}

/-- The environment in which a variable is set to a text and all else is as before. -/
def set (env : Environment) (name text : String) : Environment :=
  { env with content := fun other => if other = name then some (.text text) else env.content other }

/-- The environment in which variables are set to texts, one after another. -/
def setAll (env : Environment) (settings : List (String × String)) : Environment :=
  settings.foldl (fun env setting => env.set setting.1 setting.2) env

theorem content_set_self : (env.set name text).content name = some (.text text) := if_pos rfl

theorem content_set_of_ne (h : other ≠ name) :
    (env.set name text).content other = env.content other := if_neg h

theorem file_setAll : (env.setAll settings).file = env.file := by
  induction settings generalizing env with
  | nil => rfl
  | cons setting settings ih => exact ih

theorem content_setAll_of_notMem (h : name ∉ settings.map Prod.fst) :
    (env.setAll settings).content name = env.content name := by
  induction settings generalizing env with
  | nil => rfl
  | cons setting settings ih =>
    rw [List.map_cons, List.mem_cons, not_or] at h
    exact (ih h.2).trans (content_set_of_ne h.1)

/-- Variables that are all different hold the texts that they are set to. -/
theorem content_setAll_of_mem (hnodup : (settings.map Prod.fst).Nodup)
    (h : (name, text) ∈ settings) : (env.setAll settings).content name = some (.text text) := by
  induction settings generalizing env with
  | nil => exact absurd h List.not_mem_nil
  | cons setting settings ih =>
    rw [List.map_cons, List.nodup_cons] at hnodup
    rcases List.mem_cons.mp h with rfl | h
    · exact (content_setAll_of_notMem hnodup.1).trans content_set_self
    · exact ih hnodup.2 h

/-- The weights file gives the same fields when other variables are set. -/
theorem FileGives.setAll {fields : FileWeights} (h : env.FileGives fields)
    (hother : fileVariableName ∉ settings.map Prod.fst) :
    (env.setAll settings).FileGives fields := by
  have hset (path : String) :
      (env.setAll settings).IsSet fileVariableName path ↔ env.IsSet fileVariableName path := by
    rw [IsSet, IsSet, content_setAll_of_notMem hother]
  cases h with
  | unnamed hunset => exact .unnamed fun path => mt (hset path).mp (hunset path)
  | named hnamed hfile hread =>
    exact .named ((hset _).mpr hnamed) ((congrFun file_setAll _).trans hfile) hread

end Environment

/-! ### Texts of weights -/

/-- Texts for the nine variables that give some weights: each number is in decimal form, with blanks
around it or none, and the position weights have commas between. -/
structure Weights.IsCarriedBy (w : Weights) (bonusText : Bonus → String)
    (positionsText : String) : Prop where
  bonus : ∀ b, Padded (w.bonus b).toInt.repr.toList (bonusText b).toList
  positions : ∃ parts, [','].intercalate parts = positionsText.toList ∧
    List.Forall₂ (fun part weight => Padded weight.toInt.repr.toList part) parts
      w.positions.toList

/-- The variables of the fields in their order, with texts for them. -/
def overrides (bonusText : Bonus → String) (positionsText : String) : List (String × String) :=
  Bonus.all.map (fun b => (b.overrideName, bonusText b)) ++
    [(positionsOverrideName, positionsText)]

variable {w : Weights} {bonusText : Bonus → String} {positionsText : String}

theorem map_fst_overrides : (overrides bonusText positionsText).map Prod.fst =
    Bonus.all.map Bonus.overrideName ++ [positionsOverrideName] := rfl

theorem Weights.IsCarriedBy.isPositionsText (h : w.IsCarriedBy bonusText positionsText) :
    IsPositionsText positionsText.toList w.positions := by
  obtain ⟨parts, hjoin, hparts⟩ := h.positions
  have hweights := hparts.imp fun _ _ => isWeightText_of_padded_repr
  obtain ⟨hcommas, hweights⟩ := (List.forall₂_and_left parts _).mp
    (hweights.imp fun _ _ hweight => ⟨hweight.notMem_comma, hweight⟩)
  exact ⟨parts, hjoin, hcommas, hweights⟩

/-- No text of a weight is empty, so that a variable that is set to one counts as set. -/
theorem ne_empty_of_isWeightText {text : String} {v : Int32} (h : IsWeightText text.toList v) :
    text ≠ "" := by
  rintro rfl
  rw [← weightOfText?_eq_some_iff] at h
  exact nomatch h

theorem ne_empty_of_isPositionsText {text : String} {p : PositionWeights}
    (h : IsPositionsText text.toList p) : text ≠ "" := by
  rintro rfl
  rw [← positionsOfText?_eq_some_iff] at h
  exact nomatch h

/-- **Variables carry any weights.** When the nine variables are set to texts that give some weights
in order, then exactly these weights are loaded, all of them from the variables. The weights file,
if one is named, must be readable as one, but it does not matter what it says. -/
theorem loadWeights_setAll_overrides (w : Weights) (hvalid : validate w = .ok ())
    (env : Environment) (hfile : ∃ fields, env.FileGives fields) (bonusText : Bonus → String)
    (positionsText : String) (htexts : w.IsCarriedBy bonusText positionsText) :
    (loadWeights (env.setAll (overrides bonusText positionsText))).outcome =
      .ok { weights := w, sources := { bonus := fun _ => .env, positions := .env } } := by
  obtain ⟨fields, hgives⟩ := hfile
  have hnodup : ((overrides bonusText positionsText).map Prod.fst).Nodup := by
    rw [map_fst_overrides]
    decide
  have hother : fileVariableName ∉ (overrides bonusText positionsText).map Prod.fst := by
    rw [map_fst_overrides]
    decide
  refine loadWeights_eq_ok_iff.mpr
    ⟨fields, hgives.setAll hother, ⟨fun b => ?_, ?_⟩, validate_eq_ok_iff.mp hvalid⟩
  · have htext := isWeightText_of_padded_repr (htexts.bonus b)
    have hmem : (b.overrideName, bonusText b) ∈ overrides bonusText positionsText :=
      List.mem_append_left _ (List.mem_map_of_mem b.mem_all)
    exact .env ⟨Environment.content_setAll_of_mem hnodup hmem, ne_empty_of_isWeightText htext⟩ htext
  · have htext := htexts.isPositionsText
    have hmem : (positionsOverrideName, positionsText) ∈ overrides bonusText positionsText :=
      List.mem_append_right _ List.mem_cons_self
    exact .env ⟨Environment.content_setAll_of_mem hnodup hmem,
      ne_empty_of_isPositionsText htext⟩ htext

/-- A weights file with a negative bonus. -/
def negativeFile : Environment where
  content name := if name = fileVariableName then some (.text "weights.toml") else none
  file _ := some (.text "trips_bonus = -5")

/-- Weights with the greatest number there is and with position weights that stay the same. -/
def flatWeights : Weights where
  bonus b := if b = .trips then 2147483647 else 7
  positions := { first := 12, second := 12, third := 3, fourth := 0 }

/-- The variables carry weights past a file that would be refused by itself. -/
theorem loadWeights_setAll_overrides_negativeFile :
    let bonusText := fun b => " " ++ (flatWeights.bonus b).toInt.repr ++ "\t"
    validate flatWeights = .ok () ∧ (∃ fields, negativeFile.FileGives fields) ∧
      flatWeights.IsCarriedBy bonusText " 12,12 ,3,\t0 " ∧
      (loadWeights (negativeFile.setAll (overrides bonusText " 12,12 ,3,\t0 "))).outcome =
        .ok { weights := flatWeights, sources := { bonus := fun _ => .env, positions := .env } } := by
  intro bonusText
  have hvalid : validate flatWeights = .ok () := by decide
  have hfile : ∃ fields, negativeFile.FileGives fields := by
    have hread : (readWeightsFile? "trips_bonus = -5").isSome = true := by decide +kernel
    obtain ⟨fields, hfields⟩ := Option.isSome_iff_exists.mp hread
    have hset : negativeFile.IsSet fileVariableName "weights.toml" := ⟨rfl, by decide⟩
    exact ⟨fields, .named hset rfl hfields⟩
  have htexts : flatWeights.IsCarriedBy bonusText " 12,12 ,3,\t0 " := by
    have hspace : ∀ c ∈ [' '], isBlank c = true := List.forall_mem_singleton.mpr rfl
    have htab : ∀ c ∈ ['\t'], isBlank c = true := List.forall_mem_singleton.mpr rfl
    refine ⟨fun b => ⟨[' '], ['\t'], ?_, hspace, htab⟩,
      [[' ', '1', '2'], ['1', '2', ' '], ['3'], ['\t', '0', ' ']], rfl, ?_⟩
    · simp [bonusText]
    · exact .cons ⟨[' '], [], rfl, hspace, nofun⟩ (.cons ⟨[], [' '], rfl, nofun, hspace⟩
        (.cons (Padded.refl _) (.cons ⟨['\t'], [' '], rfl, htab, hspace⟩ .nil)))
  exact ⟨hvalid, hfile, htexts, loadWeights_setAll_overrides flatWeights hvalid negativeFile hfile
    bonusText " 12,12 ,3,\t0 " htexts⟩

end CaliforniaPoker
