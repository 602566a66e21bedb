/-!
# Bitfields

A set of positions as a number: bit `i` is set when position `i` belongs to the set.
-/

namespace CaliforniaPoker

/-- The number whose set bits are the given positions. -/
def bitfieldOf (positions : List Nat) : Nat :=
  positions.foldl (fun bits i => bits ||| 1 <<< i) 0

private theorem testBit_one_shiftLeft (i j : Nat) : (1 <<< j).testBit i = decide (i = j) := by
  rw [Nat.one_shiftLeft, Nat.testBit_two_pow]
  exact decide_eq_decide.mpr eq_comm

private theorem testBit_foldl (positions : List Nat) (bits i : Nat) :
    (positions.foldl (fun bits i => bits ||| 1 <<< i) bits).testBit i =
      (bits.testBit i || decide (i ∈ positions)) := by
  induction positions generalizing bits with
  | nil => simp
  | cons j rest ih =>
    rw [List.foldl_cons, ih, Nat.testBit_or, testBit_one_shiftLeft, Bool.or_assoc]
    simp [List.mem_cons]

/-- Bit `i` is set exactly when position `i` is given. -/
theorem testBit_bitfieldOf (positions : List Nat) (i : Nat) :
    (bitfieldOf positions).testBit i = decide (i ∈ positions) := by
  simp [bitfieldOf, testBit_foldl]

end CaliforniaPoker
