import CaliforniaPoker.Text.Numeral
import CaliforniaPoker.Text.Blank
import Mathlib.Data.List.Basic
import Mathlib.Data.List.TakeWhile

/-!
# What numerals denote

A decimal numeral is a run of digits with at most one sign before it, and it denotes the integer
that the digits give in base ten. This file states that relation on its own and shows that reading
a text is the same as finding the integer that it denotes. Blanks around a numeral are stripped
before it is read; since no character of a numeral is blank, a numeral can be padded at will.

## Main definitions

* `Numeral.Denotes`: the integer that a numeral denotes.
* `Padded`: a text with blanks before and after it.

## Main results

* `Numeral.toDigits_ofDigitChars`: digits without a superfluous zero in front are the decimal form
  of the number that they denote.
* `Numeral.denotes_repr`: the decimal form of an integer denotes it.
* `Numeral.signed?_eq_some_iff`: reading a numeral gives the integer that it denotes.
* `Numeral.int32?_eq_some_iff`, `Numeral.byte?_eq_some_iff`: the 32-bit integers and the bytes are
  read as themselves, and no others.
* `padded_trim`, `trim_eq_of_padded`: trimming strips the blanks and nothing else.
-/

namespace CaliforniaPoker

namespace Numeral

/-! ### Digits -/

/-- A non-empty run of decimal digits. -/
def IsDigits (cs : List Char) : Prop := cs ≠ [] ∧ ∀ c ∈ cs, c.isDigit = true

theorem digit?_eq_some_iff {c : Char} {d : Nat} :
    digit? c = some d ↔ c.isDigit = true ∧ c.toNat - '0'.toNat = d := by
  have hdigit : ('0' ≤ c ∧ c ≤ '9') ↔ c.isDigit = true := by
    rw [Char.isDigit_iff_toNat]
    rfl
  by_cases h : c.isDigit = true
  · rw [digit?, if_pos (hdigit.mpr h)]
    simp [h]
  · rw [digit?, if_neg fun hc => h (hdigit.mp hc)]
    simp [h]

/-- Digit by digit, a number is continued to the one that all digits give. -/
theorem foldlM_digit?_eq_some_iff {cs : List Char} {value n : Nat} :
    cs.foldlM (fun value c => (digit? c).map (10 * value + ·)) value = some n ↔
      (∀ c ∈ cs, c.isDigit = true) ∧ Nat.ofDigitChars 10 cs value = n := by
  induction cs generalizing value with
  | nil => simp
  | cons c cs ih =>
    rw [List.foldlM_cons, Nat.ofDigitChars_cons, List.forall_mem_cons]
    cases hc : digit? c with
    | none =>
      have : ¬ c.isDigit = true := fun h => by
        rw [digit?_eq_some_iff.mpr ⟨h, rfl⟩] at hc
        exact Option.some_ne_none _ hc
      simp [this]
    | some d =>
      obtain ⟨hdigit, rfl⟩ := digit?_eq_some_iff.mp hc
      simp [ih, hdigit]

theorem unsigned?_eq_some_iff {cs : List Char} {n : Nat} :
    unsigned? cs = some n ↔ IsDigits cs ∧ Nat.ofDigitChars 10 cs 0 = n := by
  cases cs with
  | nil => simp [unsigned?, IsDigits]
  | cons c cs =>
    rw [unsigned?, if_neg (by simp), foldlM_digit?_eq_some_iff, IsDigits, and_assoc]
    simp

/-! ### Decimal forms -/

theorem isDigits_toDigits (n : Nat) : IsDigits (Nat.toDigits 10 n) :=
  ⟨Nat.toDigits_ne_nil, fun _ => Nat.isDigit_of_mem_toDigits (by decide) (by decide)⟩

/-- The digits of a number have no superfluous zero in front. -/
theorem toDigits_eq_of_head? {n : Nat} (h : (Nat.toDigits 10 n).head? = some '0') :
    Nat.toDigits 10 n = ['0'] := by
  suffices hpos : 0 < n → (Nat.toDigits 10 n).head? ≠ some '0' by
    rcases Nat.eq_zero_or_pos n with rfl | hn
    · exact Nat.toDigits_zero 10
    · exact absurd h (hpos hn)
  clear h
  induction n using Nat.strongRecOn with
  | ind n ih =>
    intro hn
    by_cases hlt : n < 10
    · rw [Nat.toDigits_of_lt_base hlt]
      simp [hn.ne']
    · rw [Nat.toDigits_of_base_le (by decide) (not_lt.mp hlt), List.head?_append_of_ne_nil _
        Nat.toDigits_ne_nil]
      exact ih (n / 10) (by omega) (by omega)

theorem toNat_sub_lt_of_isDigit {c : Char} (h : c.isDigit = true) : c.toNat - '0'.toNat < 10 := by
  obtain ⟨hlow, hhigh⟩ := Char.isDigit_iff_toNat.mp h
  simp only [Char.reduceToNat] at hlow hhigh ⊢
  omega

theorem digitChar_of_isDigit {c : Char} (h : c.isDigit = true) :
    Nat.digitChar (c.toNat - '0'.toNat) = c := by
  obtain ⟨hlow, -⟩ := Char.isDigit_iff_toNat.mp h
  rw [← Char.toNat_inj, Nat.toNat_digitChar_of_lt_ten (toNat_sub_lt_of_isDigit h)]
  simp only [Char.reduceToNat] at hlow ⊢
  omega

/-- Digits behind those of a positive number give the digits of the number that all denote. -/
theorem toDigits_append {cs : List Char} (hcs : ∀ c ∈ cs, c.isDigit = true) {n : Nat}
    (hn : 0 < n) : Nat.toDigits 10 n ++ cs = Nat.toDigits 10 (Nat.ofDigitChars 10 cs n) := by
  induction cs generalizing n with
  | nil => simp
  | cons c cs ih =>
    obtain ⟨hc, hcs⟩ := List.forall_mem_cons.mp hcs
    have hlt := toNat_sub_lt_of_isDigit hc
    have hstep : Nat.toDigits 10 n ++ [c] = Nat.toDigits 10 (10 * n + (c.toNat - '0'.toNat)) := by
      rw [← Nat.toDigits_append_toDigits (by decide) hn hlt, Nat.toDigits_of_lt_base hlt,
        digitChar_of_isDigit hc]
    rw [List.append_cons, hstep, ih hcs (by omega), Nat.ofDigitChars_cons]

/-- Digits without a superfluous zero in front are the digits of the number that they denote. -/
theorem toDigits_ofDigitChars {digits : List Char} (h : IsDigits digits)
    (hzero : digits.head? = some '0' → digits = ['0']) :
    Nat.toDigits 10 (Nat.ofDigitChars 10 digits 0) = digits := by
  obtain ⟨hne, hdigits⟩ := h
  obtain ⟨c, cs, rfl⟩ := List.exists_cons_of_ne_nil hne
  obtain ⟨hc, hcs⟩ := List.forall_mem_cons.mp hdigits
  by_cases hc0 : c = '0'
  · rw [hzero (by rw [hc0]; rfl)]
    rfl
  · have hpos : 0 < c.toNat - '0'.toNat := by
      refine Nat.pos_of_ne_zero fun h0 => hc0 ?_
      rw [← digitChar_of_isDigit hc, h0]
      rfl
    rw [Nat.ofDigitChars_cons, Nat.mul_zero, Nat.zero_add, ← toDigits_append hcs hpos,
      Nat.toDigits_of_lt_base (toNat_sub_lt_of_isDigit hc), digitChar_of_isDigit hc,
      List.singleton_append]

theorem toList_repr_ofNat (n : Nat) : (Int.ofNat n).repr.toList = Nat.toDigits 10 n :=
  Nat.toList_repr

theorem toList_repr_negSucc (n : Nat) :
    (Int.negSucc n).repr.toList = '-' :: Nat.toDigits 10 (n + 1) := by
  rw [Int.repr, String.toList_append, Nat.toList_repr]
  rfl

/-! ### Signs and bounds -/

/-- The integer that a numeral denotes: its digits are read in base ten, and a sign may precede
them. -/
inductive Denotes : List Char → Int → Prop where
  | unsigned {digits : List Char} (h : IsDigits digits) :
      Denotes digits (Nat.ofDigitChars 10 digits 0)
  | positive {digits : List Char} (h : IsDigits digits) :
      Denotes ('+' :: digits) (Nat.ofDigitChars 10 digits 0)
  | negative {digits : List Char} (h : IsDigits digits) :
      Denotes ('-' :: digits) (-Nat.ofDigitChars 10 digits 0)

/-- The decimal form of an integer denotes it. -/
theorem denotes_repr (z : Int) : Denotes z.repr.toList z := by
  cases z with
  | ofNat n =>
    have h := Denotes.unsigned (isDigits_toDigits n)
    rwa [Nat.ofDigitChars_ten_toDigits, ← toList_repr_ofNat] at h
  | negSucc n =>
    have h := Denotes.negative (isDigits_toDigits (n + 1))
    rwa [Nat.ofDigitChars_ten_toDigits, ← toList_repr_negSucc] at h

theorem signed?_of_isDigits {cs : List Char} (h : IsDigits cs) :
    signed? cs = some (Nat.ofDigitChars 10 cs 0 : Int) := by
  -- a sign is no digit, so the text is not taken for one with a sign
  have hsign {sign : Char} (hsign : sign.isDigit = false) (tail : List Char) :
      cs ≠ sign :: tail := by
    rintro rfl
    exact Bool.false_ne_true (hsign.symm.trans (h.2 sign List.mem_cons_self))
  unfold signed?
  split
  · exact absurd rfl (hsign rfl _)
  · exact absurd rfl (hsign rfl _)
  · rw [unsigned?_eq_some_iff.mpr ⟨h, rfl⟩]
    rfl

/-- Reading a numeral gives the integer that it denotes. -/
theorem signed?_eq_some_iff {cs : List Char} {z : Int} : signed? cs = some z ↔ Denotes cs z := by
  constructor
  · intro h
    unfold signed? at h
    split at h <;> obtain ⟨n, hn, rfl⟩ := Option.map_eq_some_iff.mp h <;>
      obtain ⟨hdigits, rfl⟩ := unsigned?_eq_some_iff.mp hn
    · exact .positive hdigits
    · exact .negative hdigits
    · exact .unsigned hdigits
  · intro h
    cases h with
    | unsigned h => exact signed?_of_isDigits h
    | positive h | negative h =>
      rw [signed?, unsigned?_eq_some_iff.mpr ⟨h, rfl⟩]
      rfl

/-- The 32-bit integers are read as themselves, and other integers are not read at all. -/
theorem int32?_eq_some_iff {z : Int} {w : Int32} : int32? z = some w ↔ w.toInt = z := by
  constructor
  · intro h
    rw [int32?] at h
    split at h
    · next hz =>
      obtain rfl := Option.some.inj h
      exact hz
    · cases h
  · rintro rfl
    exact int32?_toInt w

/-- The bytes are read as themselves, and other integers are not read at all. -/
theorem byte?_eq_some_iff {z : Int} {b : UInt8} : byte? z = some b ↔ b.toNat = z := by
  constructor
  · intro h
    rw [byte?] at h
    split at h
    · next hz =>
      obtain rfl := Option.some.inj h
      rw [UInt8.toNat_ofNat_of_lt' (by rw [UInt8.size]; omega)]
      omega
    · cases h
  · rintro rfl
    exact byte?_toNat b

/-- No character of a numeral is a comma. -/
theorem Denotes.notMem_comma {cs : List Char} {z : Int} (h : Denotes cs z) : ',' ∉ cs := by
  have hdigits {digits : List Char} (h : IsDigits digits) : ',' ∉ digits := fun hmem =>
    absurd (h.2 ',' hmem) (by decide)
  cases h with
  | unsigned h => exact hdigits h
  | positive h | negative h =>
    exact List.not_mem_cons_of_ne_of_not_mem (by decide) (hdigits h)

/-- No character of a numeral is blank. -/
theorem Denotes.isBlank_eq_false {cs : List Char} {z : Int} (h : Denotes cs z) :
    ∀ c ∈ cs, isBlank c = false := by
  have hdigits {digits : List Char} (h : IsDigits digits) : ∀ c ∈ digits, isBlank c = false := by
    intro c hc
    obtain ⟨hlow, hhigh⟩ := Char.isDigit_iff_toNat.mp (h.2 c hc)
    simp only [Char.reduceToNat] at hlow hhigh
    simp only [isBlank, Bool.or_eq_false_iff, Bool.and_eq_false_iff, decide_eq_false_iff_not,
      beq_eq_false_iff_ne]
    omega
  cases h with
  | unsigned h => exact hdigits h
  | positive h => exact List.forall_mem_cons.mpr ⟨rfl, hdigits h⟩
  | negative h => exact List.forall_mem_cons.mpr ⟨rfl, hdigits h⟩

end Numeral

/-! ### Blanks around a text -/

/-- A text is another one with blanks before and after it. -/
def Padded (core text : List Char) : Prop :=
  ∃ before after, text = before ++ core ++ after ∧
    (∀ c ∈ before, isBlank c = true) ∧ ∀ c ∈ after, isBlank c = true

theorem Padded.refl (core : List Char) : Padded core core :=
  ⟨[], [], by rw [List.nil_append, List.append_nil], nofun, nofun⟩

/-- A text is what trimming leaves of it, with blanks before and after that. -/
theorem padded_trim (cs : List Char) : Padded (trim cs) cs := by
  refine ⟨cs.takeWhile isBlank, ((cs.dropWhile isBlank).reverse.takeWhile isBlank).reverse, ?_,
    fun c hc => ?_, fun c hc => ?_⟩
  · rw [trim, List.append_assoc, ← List.reverse_append, List.takeWhile_append_dropWhile,
      List.reverse_reverse, List.takeWhile_append_dropWhile]
  · exact List.mem_takeWhile_imp hc
  · exact List.mem_takeWhile_imp (List.mem_reverse.mp hc)

/-- Trimming strips the blanks around a text that has none itself. -/
theorem trim_eq_of_padded {core text : List Char} (hcore : ∀ c ∈ core, isBlank c = false)
    (h : Padded core text) : trim text = core := by
  have hdrop {cs tail : List Char} (hcs : ∀ c ∈ cs, isBlank c = false) (hne : cs ≠ []) :
      (cs ++ tail).dropWhile isBlank = cs ++ tail := by
    obtain ⟨c, cs, rfl⟩ := List.exists_cons_of_ne_nil hne
    exact List.dropWhile_cons_of_neg (by simp [hcs c List.mem_cons_self])
  obtain ⟨before, after, rfl, hbefore, hafter⟩ := h
  rw [trim, List.append_assoc, List.dropWhile_append_of_pos hbefore]
  by_cases hne : core = []
  · have hblank : after.dropWhile isBlank = [] := List.dropWhile_eq_nil_iff.mpr hafter
    rw [hne, List.nil_append, hblank]
    rfl
  · have hlast : core.reverse.dropWhile isBlank = core.reverse := by
      rw [← List.append_nil core.reverse]
      exact hdrop (fun c hc => hcore c (List.mem_reverse.mp hc)) (by simpa using hne)
    rw [hdrop hcore hne, List.reverse_append, List.dropWhile_append_of_pos fun c hc =>
      hafter c (List.mem_reverse.mp hc), hlast, List.reverse_reverse]

end CaliforniaPoker
