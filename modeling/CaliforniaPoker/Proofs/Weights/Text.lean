import CaliforniaPoker.Proofs.Text.Numeral
import CaliforniaPoker.Weights.Loading
import Mathlib.Data.List.Forall2

/-!
# Which texts give weights

The text of a variable gives a bonus if it is a numeral in the range of the weights, with blanks
around it or none, and the position weights if it is four of them with commas between. This file
states which weights a text gives, on its own, and shows that these are the ones that are read.

## Main definitions

* `IsWeightText`: the text is a numeral, padded or not, that denotes the weight.
* `IsPositionsText`: the text is four of them, separated by commas.

## Main results

* `weightOfText?_eq_some_iff`, `positionsOfText?_eq_some_iff`: the weights that are read from a text
  are those that it gives.
* `exists_isWeightText_iff`: of the numerals, those in the range of the weights give one.
-/

namespace CaliforniaPoker

/-! ### One weight -/

/-- The text of a weight: a numeral that denotes it, with blanks around it or none. -/
def IsWeightText (text : List Char) (w : Int32) : Prop :=
  ∃ numeral, Padded numeral text ∧ Numeral.Denotes numeral w.toInt

theorem signed?_trim_eq_some_iff {text : List Char} {z : Int} :
    Numeral.signed? (trim text) = some z ↔
      ∃ numeral, Padded numeral text ∧ Numeral.Denotes numeral z := by
  constructor
  · exact fun h => ⟨trim text, padded_trim text, Numeral.signed?_eq_some_iff.mp h⟩
  · rintro ⟨numeral, hpadded, hdenotes⟩
    rw [trim_eq_of_padded hdenotes.isBlank_eq_false hpadded]
    exact Numeral.signed?_eq_some_iff.mpr hdenotes

/-- The weight that is read from a text is the one whose text it is. -/
theorem weightOfText?_eq_some_iff {text : String} {w : Int32} :
    weightOfText? text = some w ↔ IsWeightText text.toList w := by
  rw [weightOfText?, Option.bind_eq_some_iff, IsWeightText, ← signed?_trim_eq_some_iff]
  constructor
  · rintro ⟨z, hz, hw⟩
    rwa [Numeral.int32?_eq_some_iff.mp hw]
  · exact fun h => ⟨w.toInt, h, Numeral.int32?_toInt w⟩

/-- The decimal form of a weight, padded or not, is a text of it. -/
theorem isWeightText_of_padded_repr {text : List Char} {w : Int32}
    (h : Padded w.toInt.repr.toList text) : IsWeightText text w :=
  ⟨_, h, Numeral.denotes_repr _⟩

/-- The text of a weight has no comma. -/
theorem IsWeightText.notMem_comma {text : List Char} {w : Int32} (h : IsWeightText text w) :
    ',' ∉ text := by
  obtain ⟨numeral, ⟨before, after, rfl, hbefore, hafter⟩, hdenotes⟩ := h
  simp only [List.mem_append, not_or]
  refine ⟨⟨fun hmem => ?_, hdenotes.notMem_comma⟩, fun hmem => ?_⟩
  · exact absurd (hbefore ',' hmem) (by decide)
  · exact absurd (hafter ',' hmem) (by decide)

/-- A text gives a weight exactly when it is a numeral, padded or not, whose value is in the range
of the weights. -/
theorem exists_isWeightText_iff {text : List Char} :
    (∃ w, IsWeightText text w) ↔ ∃ numeral z, Padded numeral text ∧ Numeral.Denotes numeral z ∧
      Int32.minValue.toInt ≤ z ∧ z ≤ Int32.maxValue.toInt := by
  constructor
  · rintro ⟨w, numeral, hpadded, hdenotes⟩
    exact ⟨numeral, w.toInt, hpadded, hdenotes, w.minValue_le_toInt, w.toInt_le⟩
  · rintro ⟨numeral, z, hpadded, hdenotes, hlow, hhigh⟩
    refine ⟨Int32.ofIntLE z hlow hhigh, numeral, hpadded, ?_⟩
    rwa [Int32.toInt_ofIntLE]

/-! ### Four weights -/

/-- Splitting at commas is splitting at that one character. -/
theorem splitAtCommas_eq_splitOn (cs : List Char) : splitAtCommas cs = cs.splitOn ',' := by
  induction cs with
  | nil => rfl
  | cons c cs ih =>
    obtain ⟨part, rest, hparts⟩ := List.exists_cons_of_ne_nil (List.splitOn_ne_nil ',' cs)
    rw [splitAtCommas, ih, hparts, List.splitOn_cons_eq_if_modifyHead, hparts]
    simp

theorem notMem_of_mem_splitAtCommas {cs part : List Char} (h : part ∈ splitAtCommas cs) :
    ',' ∉ part := by
  induction cs generalizing part with
  | nil =>
    rw [List.mem_singleton.mp h]
    exact List.not_mem_nil
  | cons c cs ih =>
    rw [splitAtCommas] at h
    split at h
    · cases h
    · next first rest hparts =>
      rw [hparts] at ih
      split at h
      · rcases List.mem_cons.mp h with rfl | hmem
        · exact List.not_mem_nil
        · exact ih hmem
      · next hc =>
        rcases List.mem_cons.mp h with rfl | hmem
        · exact List.not_mem_cons_of_ne_of_not_mem (Ne.symm hc) (ih List.mem_cons_self)
        · exact ih (List.mem_cons_of_mem _ hmem)

/-- The parts of a text are the texts without commas that give it back when they are joined by
commas. -/
theorem splitAtCommas_eq_iff {cs : List Char} {parts : List (List Char)} (hne : parts ≠ []) :
    splitAtCommas cs = parts ↔
      [','].intercalate parts = cs ∧ ∀ part ∈ parts, ',' ∉ part := by
  constructor
  · rintro rfl
    refine ⟨?_, fun _ => notMem_of_mem_splitAtCommas⟩
    rw [splitAtCommas_eq_splitOn, List.intercalate_splitOn]
  · rintro ⟨rfl, hcommas⟩
    rw [splitAtCommas_eq_splitOn, List.splitOn_intercalate ',' hcommas hne]

/-- The text of position weights: the texts of the four weights, without commas of their own, with
commas between. -/
def IsPositionsText (text : List Char) (p : PositionWeights) : Prop :=
  ∃ parts, [','].intercalate parts = text ∧ (∀ part ∈ parts, ',' ∉ part) ∧
    List.Forall₂ IsWeightText parts p.toList

theorem PositionWeights.ofList?_eq_some_iff {ws : List Int32} {p : PositionWeights} :
    PositionWeights.ofList? ws = some p ↔ ws = p.toList := by
  constructor
  · intro h
    unfold PositionWeights.ofList? at h
    split at h
    · obtain rfl := Option.some.inj h
      rfl
    · cases h
  · rintro rfl
    exact PositionWeights.ofList?_toList p

/-- A list is read as the list of what each of its elements is read as. -/
theorem mapM_eq_some_iff_forall₂ {α β : Type} {f : α → Option β} {xs : List α} {ys : List β} :
    xs.mapM f = some ys ↔ List.Forall₂ (fun x y => f x = some y) xs ys := by
  induction xs generalizing ys with
  | nil => simp [eq_comm]
  | cons x xs ih =>
    rw [List.mapM_cons, List.forall₂_cons_left_iff]
    simp only [Option.bind_eq_bind, Option.bind_eq_some_iff, Option.pure_def, Option.some.injEq,
      ih]
    constructor
    · rintro ⟨y, hy, rest, hrest, rfl⟩
      exact ⟨y, rest, hy, hrest, rfl⟩
    · rintro ⟨y, rest, hy, hrest, rfl⟩
      exact ⟨y, hy, rest, hrest, rfl⟩

/-- The position weights that are read from a text are those whose text it is. -/
theorem positionsOfText?_eq_some_iff {text : String} {p : PositionWeights} :
    positionsOfText? text = some p ↔ IsPositionsText text.toList p := by
  have hread : positionsOfText? text = some p ↔
      List.Forall₂ IsWeightText (splitAtCommas text.toList) p.toList := by
    simp only [positionsOfText?, Option.bind_eq_some_iff, PositionWeights.ofList?_eq_some_iff,
      exists_eq_right, mapM_eq_some_iff_forall₂, weightOfText?_eq_some_iff, String.toList_ofList]
  have hne {parts : List (List Char)} (h : List.Forall₂ IsWeightText parts p.toList) :
      parts ≠ [] := by
    rintro rfl
    cases h
  rw [hread]
  constructor
  · intro h
    obtain ⟨hjoin, hcommas⟩ := (splitAtCommas_eq_iff (hne h)).mp rfl
    exact ⟨_, hjoin, hcommas, h⟩
  · rintro ⟨parts, hjoin, hcommas, hweights⟩
    rwa [(splitAtCommas_eq_iff (hne hweights)).mpr ⟨hjoin, hcommas⟩]

end CaliforniaPoker
