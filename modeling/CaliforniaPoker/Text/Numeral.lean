/-!
# Decimal numerals and bounded integers

A setting is an integer written with decimal digits and at most one sign. `signed?` reads such a
numeral exactly; `int32?`, `byte?` and `index?` then admit the integers that a 32-bit weight, a
byte or a 64-bit position can hold.
-/

namespace CaliforniaPoker.Numeral

/-- The value of a digit `0` to `9`. -/
def digit? (c : Char) : Option Nat :=
  if '0' ≤ c ∧ c ≤ '9' then some (c.toNat - '0'.toNat) else none

/-- The value of a non-empty run of decimal digits. -/
def unsigned? (cs : List Char) : Option Nat :=
  if cs.isEmpty then none
  else cs.foldlM (fun value c => (digit? c).map (10 * value + ·)) 0

/-- The value of a run of decimal digits with at most one sign before it. -/
def signed? : List Char → Option Int
  | '+' :: cs => (unsigned? cs).map Int.ofNat
  | '-' :: cs => (unsigned? cs).map fun n => -Int.ofNat n
  | cs => (unsigned? cs).map Int.ofNat

/-- An integer as a 32-bit one, if it is one. -/
def int32? (n : Int) : Option Int32 :=
  if (Int32.ofInt n).toInt = n then some (Int32.ofInt n) else none

/-- An integer as a byte, if it is one. -/
def byte? (n : Int) : Option UInt8 :=
  if 0 ≤ n ∧ n < 256 then some (UInt8.ofNat n.toNat) else none

/-- An integer as a position below `2 ^ 64`, if it is one. -/
def index? (n : Int) : Option Nat :=
  if 0 ≤ n ∧ n.toNat < UInt64.size then some n.toNat else none

theorem int32?_toInt (w : Int32) : int32? w.toInt = some w := by
  simp [int32?]

theorem byte?_toNat (b : UInt8) : byte? b.toNat = some b := by
  have := b.toNat_lt
  simp only [byte?]
  rw [if_pos (by omega)]
  simp

theorem index?_natCast {i : Nat} (h : i < UInt64.size) : index? i = some i := by
  simp only [index?]
  rw [if_pos (by omega)]
  simp

end CaliforniaPoker.Numeral
