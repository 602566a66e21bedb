import CaliforniaPoker.Json.Reading
import CaliforniaPoker.Proofs.Text.Numeral
import Mathlib.Data.List.Basic

/-!
# Numbers and string literals of JSON are read as they are written

A number extends as far as it can, so that it is read back in front of a text that does not continue
it. An integer is read from its decimal form and from no other text. In a string literal each
character is read back from its form, escaped or not.

## Main definitions

* `EndsNumber`: the text does not continue a number that stands before it.

## Main results

* `readNumber_eq_some_int_iff`: the texts from which an integer is read.
* `readString_renderString`: a string literal is read back.
-/

namespace CaliforniaPoker

namespace Json

/-! ### Numbers -/

/-- A character that continues a number. -/
def continuesNumber (c : Char) : Bool := c.isDigit || c == '.' || c == 'e' || c == 'E'

/-- The text does not continue a number that stands before it. -/
def EndsNumber (rest : List Char) : Prop := ∀ c ∈ rest.head?, continuesNumber c = false

theorem endsNumber_cons {c : Char} {cs : List Char} :
    EndsNumber (c :: cs) ↔ continuesNumber c = false := by
  simp [EndsNumber]

theorem endsNumber_iff {rest : List Char} :
    EndsNumber rest ↔ (∀ c ∈ rest.head?, c.isDigit = false) ∧ (∀ c ∈ rest.head?, c ≠ '.') ∧
      ∀ c ∈ rest.head?, c ≠ 'e' ∧ c ≠ 'E' := by
  cases rest with
  | nil => simp [EndsNumber]
  | cons c cs => simp [endsNumber_cons, continuesNumber, and_assoc]

theorem dropWhile_eq_self_of_head? {p : Char → Bool} {cs : List Char}
    (h : ∀ c ∈ cs.head?, p c = false) : cs.dropWhile p = cs := by
  cases cs with
  | nil => rfl
  | cons c cs => rw [List.dropWhile_cons_of_neg (by simp [h c rfl])]

theorem takeWhile_eq_nil_of_head? {p : Char → Bool} {cs : List Char}
    (h : ∀ c ∈ cs.head?, p c = false) : cs.takeWhile p = [] := by
  cases cs with
  | nil => rfl
  | cons c cs => rw [List.takeWhile_cons_of_neg (by simp [h c rfl])]

theorem readDigits_eq_some_iff {cs digits rest : List Char} :
    readDigits cs = some (digits, rest) ↔
      cs = digits ++ rest ∧ Numeral.IsDigits digits ∧ ∀ c ∈ rest.head?, c.isDigit = false := by
  constructor
  · intro h
    rw [readDigits] at h
    split at h
    · cases h
    · next hne =>
      cases h
      refine ⟨List.takeWhile_append_dropWhile.symm, ⟨hne, fun c => List.mem_takeWhile_imp⟩,
        fun c hc => ?_⟩
      have := List.head?_dropWhile_not Char.isDigit cs
      rw [Option.mem_def.mp hc] at this
      exact this
  · rintro ⟨rfl, ⟨hne, hdigits⟩, hrest⟩
    rw [readDigits, List.takeWhile_append_of_pos hdigits, List.dropWhile_append_of_pos hdigits,
      takeWhile_eq_nil_of_head? hrest, dropWhile_eq_self_of_head? hrest, List.append_nil]
    obtain ⟨c, cs, rfl⟩ := List.exists_cons_of_ne_nil hne
    rfl

theorem skipFraction_eq_some_false_iff {cs rest : List Char} :
    skipFraction cs = some (false, rest) ↔ cs = rest ∧ ∀ c ∈ cs.head?, c ≠ '.' := by
  unfold skipFraction
  split
  · simp
  · next hdot =>
    cases cs with
    | nil => simp
    | cons c cs =>
      have hc : c ≠ '.' := fun h => hdot cs (by rw [h])
      simp [hc]

theorem skipExponent_eq_some_false_iff {cs rest : List Char} :
    skipExponent cs = some (false, rest) ↔ cs = rest ∧ ∀ c ∈ cs.head?, c ≠ 'e' ∧ c ≠ 'E' := by
  cases cs with
  | nil => simp [skipExponent]
  | cons c cs =>
    unfold skipExponent
    dsimp only
    split_ifs with hc
    · simp only [Option.map_eq_some_iff, Prod.mk.injEq, Bool.true_eq_false, false_and, and_false,
        exists_const, false_iff, not_and, List.head?_cons, Option.mem_def, Option.some.injEq]
      rintro - h
      exact absurd (h c rfl) (by tauto)
    · simp only [not_or] at hc
      simp [hc]

/-- An integer is read from its decimal form with a minus if there is one, and from nothing else. -/
theorem readUnsigned_eq_some_int_iff {negative : Bool} {cs rest : List Char} {v : Int} :
    readUnsigned negative cs = some (int v, rest) ↔ ∃ n, cs = Nat.toDigits 10 n ++ rest ∧
      EndsNumber rest ∧ (negative = true → n ≠ 0) ∧ v = if negative then -(n : Int) else n := by
  have hfold (digits : List Char) :
      digits.foldl (fun value c => 10 * value + (c.toNat - '0'.toNat)) 0 =
        Nat.ofDigitChars 10 digits 0 := rfl
  simp only [readUnsigned, hfold, Option.bind_eq_bind, Option.bind_eq_some_iff, Prod.exists]
  constructor
  · rintro ⟨digits, tail, hread, h⟩
    obtain ⟨rfl, hdigits, htail⟩ := readDigits_eq_some_iff.mp hread
    have hzero : ¬ (digits.head? = some '0' ∧ digits ≠ ['0']) := fun hzero => by
      rw [if_pos hzero] at h
      cases h
    rw [if_neg hzero] at h
    obtain ⟨⟨fraction, tail₁⟩, hfraction, h⟩ := Option.bind_eq_some_iff.mp h
    obtain ⟨⟨exponent, tail₂⟩, hexponent, h⟩ := Option.bind_eq_some_iff.mp h
    dsimp only at hexponent h
    split at h
    · cases h
    · next hinexact =>
      cases h
      simp only [Bool.or_eq_true, Bool.and_eq_true, beq_iff_eq, not_or, not_and,
        Bool.not_eq_true] at hinexact
      obtain ⟨⟨rfl, rfl⟩, hneg⟩ := hinexact
      obtain ⟨rfl, hdot⟩ := skipFraction_eq_some_false_iff.mp hfraction
      obtain ⟨rfl, hexp⟩ := skipExponent_eq_some_false_iff.mp hexponent
      refine ⟨Nat.ofDigitChars 10 digits 0, ?_, endsNumber_iff.mpr ⟨htail, hdot, hexp⟩, hneg, rfl⟩
      rw [Numeral.toDigits_ofDigitChars hdigits fun h0 => not_not.mp fun hne => hzero ⟨h0, hne⟩]
  · rintro ⟨n, rfl, hrest, hneg, rfl⟩
    obtain ⟨hdigit, hdot, hexp⟩ := endsNumber_iff.mp hrest
    refine ⟨_, _, readDigits_eq_some_iff.mpr ⟨rfl, Numeral.isDigits_toDigits n, hdigit⟩, ?_⟩
    have hzero : ¬ ((Nat.toDigits 10 n).head? = some '0' ∧ Nat.toDigits 10 n ≠ ['0']) :=
      fun h => h.2 (Numeral.toDigits_eq_of_head? h.1)
    rw [if_neg hzero, skipFraction_eq_some_false_iff.mpr ⟨rfl, hdot⟩, Option.bind_some,
      skipExponent_eq_some_false_iff.mpr ⟨rfl, hexp⟩, Option.bind_some,
      Nat.ofDigitChars_ten_toDigits, if_neg (by simpa using hneg)]
    rfl

/-- A character with which the decimal form of an integer begins: a minus or a digit. -/
def startsNumber (c : Char) : Bool := c == '-' || c.isDigit

theorem ne_of_startsNumber {c d : Char} (hc : startsNumber c = true)
    (hd : startsNumber d = false) : c ≠ d := by
  rintro rfl
  exact Bool.false_ne_true (hd.symm.trans hc)

theorem isBlank_of_startsNumber {c : Char} (hc : startsNumber c = true) : isBlank c = false := by
  simp only [isBlank, Bool.or_eq_false_iff, beq_eq_false_iff_ne]
  exact ⟨⟨⟨ne_of_startsNumber hc rfl, ne_of_startsNumber hc rfl⟩, ne_of_startsNumber hc rfl⟩,
    ne_of_startsNumber hc rfl⟩

theorem exists_toList_repr_eq (v : Int) :
    ∃ c cs, v.repr.toList = c :: cs ∧ startsNumber c = true := by
  cases v with
  | ofNat n =>
    obtain ⟨hne, hdigits⟩ := Numeral.isDigits_toDigits n
    obtain ⟨c, cs, hcs⟩ := List.exists_cons_of_ne_nil hne
    refine ⟨c, cs, by rw [Numeral.toList_repr_ofNat, hcs], ?_⟩
    rw [startsNumber, hdigits c (hcs ▸ List.mem_cons_self), Bool.or_true]
  | negSucc n => exact ⟨_, _, Numeral.toList_repr_negSucc n, rfl⟩

theorem readNumber_of_isDigits {digits rest : List Char} (h : Numeral.IsDigits digits) :
    readNumber (digits ++ rest) = readUnsigned false (digits ++ rest) := by
  obtain ⟨hne, hdigits⟩ := h
  obtain ⟨c, cs, rfl⟩ := List.exists_cons_of_ne_nil hne
  unfold readNumber
  split
  · next heq =>
    -- a minus is no digit
    cases heq
    exact absurd (hdigits '-' List.mem_cons_self) (by decide)
  · rfl

/-- **An integer is read from its decimal form**, in front of a text that does not continue it, and
from nothing else. -/
theorem readNumber_eq_some_int_iff {cs rest : List Char} {v : Int} :
    readNumber cs = some (int v, rest) ↔ cs = v.repr.toList ++ rest ∧ EndsNumber rest := by
  constructor
  · intro h
    unfold readNumber at h
    split at h <;> obtain ⟨n, rfl, hrest, hneg, rfl⟩ := readUnsigned_eq_some_int_iff.mp h
    · obtain ⟨k, rfl⟩ := Nat.exists_eq_succ_of_ne_zero (hneg rfl)
      exact ⟨congrArg (· ++ rest) (Numeral.toList_repr_negSucc k).symm, hrest⟩
    · exact ⟨congrArg (· ++ rest) (Numeral.toList_repr_ofNat n).symm, hrest⟩
  · rintro ⟨rfl, hrest⟩
    cases v with
    | ofNat n =>
      rw [Numeral.toList_repr_ofNat, readNumber_of_isDigits (Numeral.isDigits_toDigits n)]
      exact readUnsigned_eq_some_int_iff.mpr ⟨n, rfl, hrest, nofun, rfl⟩
    | negSucc n =>
      rw [Numeral.toList_repr_negSucc, List.cons_append, readNumber]
      exact readUnsigned_eq_some_int_iff.mpr ⟨n + 1, rfl, hrest, fun _ => n.succ_ne_zero, rfl⟩

theorem eq_of_readUnsigned {negative : Bool} {cs rest : List Char} {j : Json}
    (h : readUnsigned negative cs = some (j, rest)) : (∃ v, j = int v) ∨ j = inexact := by
  simp only [readUnsigned, Option.bind_eq_bind, Option.bind_eq_some_iff, Prod.exists] at h
  obtain ⟨digits, tail, -, h⟩ := h
  split at h
  · cases h
  · simp only [Option.bind_eq_some_iff, Prod.exists] at h
    obtain ⟨fraction, tail₁, -, exponent, tail₂, -, h⟩ := h
    split at h <;> cases h
    · exact .inr rfl
    · exact .inl ⟨_, rfl⟩

/-- A number is an integer or it is inexact. -/
theorem eq_of_readNumber {cs rest : List Char} {j : Json} (h : readNumber cs = some (j, rest)) :
    (∃ v, j = int v) ∨ j = inexact := by
  unfold readNumber at h
  split at h <;> exact eq_of_readUnsigned h

theorem readNumber_minus_zero {rest : List Char} (hrest : EndsNumber rest) :
    readNumber ('-' :: '0' :: rest) = some (inexact, rest) := by
  obtain ⟨hdigit, hdot, hexp⟩ := endsNumber_iff.mp hrest
  have hread : readDigits ('0' :: rest) = some (['0'], rest) :=
    readDigits_eq_some_iff.mpr ⟨rfl, Numeral.isDigits_toDigits 0, hdigit⟩
  rw [readNumber, readUnsigned, hread]
  dsimp only [Option.bind_eq_bind, Option.bind_some]
  rw [if_neg (by simp), skipFraction_eq_some_false_iff.mpr ⟨rfl, hdot⟩, Option.bind_some,
    skipExponent_eq_some_false_iff.mpr ⟨rfl, hexp⟩]
  rfl

/-! ### String literals -/

theorem hexValue?_hexDigit (n : Nat) : hexValue? (hexDigit n) = some (n % 16) := by
  have hall : ∀ k < 16, hexValue? (Nat.digitChar k) = some k := by decide
  exact hall _ (Nat.mod_lt n (by decide))

/-- A character is read from its form. -/
theorem readCodes_renderChar (c : Char) (cs : List Char) :
    readCodes (renderChar c ++ cs) =
      (readCodes cs).map fun (codes, rest) => (c.toNat :: codes, rest) := by
  -- an escape of one letter
  have hescape {e : Char} (he : e ≠ 'u') (hc : escape? e = some c) :
      readCodes ('\\' :: e :: cs) =
        (readCodes cs).map fun (codes, rest) => (c.toNat :: codes, rest) := by
    rw [readCodes, hc]
    · cases readCodes cs <;> rfl
    · exact fun _ _ _ _ _ hu => absurd hu he
  unfold renderChar
  split_ifs with hquote hback hb hf hn hr ht hcontrol
  · exact hescape (by decide) (by rw [hquote]; rfl)
  · exact hescape (by decide) (by rw [hback]; rfl)
  · exact hescape (by decide) (by rw [hb]; rfl)
  · exact hescape (by decide) (by rw [hf]; rfl)
  · exact hescape (by decide) (by rw [hn]; rfl)
  · exact hescape (by decide) (by rw [hr]; rfl)
  · exact hescape (by decide) (by rw [ht]; rfl)
  · have hcode : hex4? '0' '0' (hexDigit (c.toNat / 16)) (hexDigit c.toNat) = some c.toNat := by
      have hzero : hexValue? '0' = some 0 := rfl
      rw [hex4?, hzero, hexValue?_hexDigit, hexValue?_hexDigit]
      refine congrArg some ?_
      omega
    simp only [List.cons_append, List.nil_append]
    rw [readCodes, hcode]
    cases readCodes cs <;> rfl
  · rw [List.singleton_append, readCodes, if_neg (not_or.mpr ⟨hback, hcontrol⟩)]
    · cases readCodes cs <;> rfl
    · exact fun h => hquote h
    · exact fun _ _ _ _ _ h => absurd h hback
    · exact fun _ _ h => absurd h hback

theorem readCodes_flatMap_renderChar (cs rest : List Char) :
    readCodes (cs.flatMap renderChar ++ '\x22' :: rest) = some (cs.map Char.toNat, rest) := by
  induction cs with
  | nil => simp [readCodes]
  | cons c cs ih =>
    rw [List.flatMap_cons, List.append_assoc, readCodes_renderChar, ih]
    rfl

/-- No character is half of a surrogate pair. -/
theorem isLead_toNat_or_isTrail_toNat (c : Char) :
    isLead c.toNat = false ∧ isTrail c.toNat = false := by
  have hvalid : c.toNat < 0xd800 ∨ 0xdfff < c.toNat ∧ c.toNat < 0x110000 := c.valid
  simp only [isLead, isTrail, Bool.and_eq_false_iff, decide_eq_false_iff_not]
  omega

theorem joinCodes_map_toNat (cs : List Char) : joinCodes (cs.map Char.toNat) = some cs := by
  induction cs with
  | nil => rfl
  | cons c cs ih =>
    obtain ⟨hlead, htrail⟩ := isLead_toNat_or_isTrail_toNat c
    cases cs with
    | nil => simp [joinCodes, hlead, htrail]
    | cons d cs =>
      rw [List.map_cons, List.map_cons, joinCodes, hlead, htrail, ← List.map_cons, ih]
      simp

/-- A string literal is read back, whether it denotes a text or not. -/
theorem readString_renderString (text : Option String) :
    ∃ body, renderString text = '\x22' :: body ∧
      ∀ rest, readString (body ++ rest) = some (text, rest) := by
  cases text with
  | none => exact ⟨_, rfl, fun _ => rfl⟩
  | some text =>
    refine ⟨_, rfl, fun rest => ?_⟩
    rw [readString, List.append_assoc, List.singleton_append, readCodes_flatMap_renderChar]
    simp [joinCodes_map_toNat]

end Json

end CaliforniaPoker
