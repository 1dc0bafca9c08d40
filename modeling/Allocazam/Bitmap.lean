import Allocazam.SizeArithmetic

/-!
# Words as bit sets

Bits of 64-bit words: setting and clearing one bit, masking off the low bits
and finding the lowest bit that is set.
-/

namespace Allocazam

/-- `std::countr_zero` on a word of the given width. -/
def countrZero : Nat → Nat → Nat
  | 0, _ => 0
  | width + 1, word =>
      if word % 2 = 1 then 0 else countrZero width (word / 2) + 1

theorem countrZero_spec {width word : Nat} (bounded : word < 2 ^ width)
    (nonzero : word ≠ 0) :
    countrZero width word < width ∧
      word.testBit (countrZero width word) = true ∧
        ∀ index < countrZero width word, word.testBit index = false := by
  induction width generalizing word with
  | zero =>
      simp at bounded
      exact absurd bounded nonzero
  | succ width ih =>
      unfold countrZero
      by_cases odd : word % 2 = 1
      · simp [odd, Nat.testBit_zero]
      · rw [if_neg odd]
        have powEq : 2 ^ (width + 1) = 2 * 2 ^ width := by
          rw [Nat.pow_succ, Nat.mul_comm]
        obtain ⟨below, isSet, clear⟩ :=
          @ih (word / 2) (by omega) (by omega)
        refine ⟨by omega, by rwa [Nat.testBit_succ], fun index bound => ?_⟩
        cases index with
        | zero => simp [Nat.testBit_zero, odd]
        | succ index =>
            rw [Nat.testBit_succ]
            exact clear index (by omega)

theorem testBit_or_shift (word bit index : Nat) :
    (word ||| 1 <<< bit).testBit index =
      (word.testBit index || decide (bit = index)) := by
  rw [Nat.testBit_or, Nat.one_shiftLeft, Nat.testBit_two_pow]

theorem testBit_wordNot {value index : Nat} (bounded : value < 2 ^ 64) :
    (wordNot value).testBit index =
      (decide (index < 64) && ! value.testBit index) := by
  have complement : wordNot value = 2 ^ 64 - (value + 1) := by
    unfold wordNot
    omega
  rw [complement, Nat.testBit_two_pow_sub_succ bounded]

theorem testBit_eq_false_of_width {word index : Nat}
    (bounded : word < 2 ^ 64) (high : 64 ≤ index) :
    word.testBit index = false :=
  Nat.testBit_lt_two_pow
    (Nat.lt_of_lt_of_le bounded (Nat.pow_le_pow_right (by decide) high))

theorem testBit_and_not_shift {word bit : Nat} (index : Nat)
    (bounded : word < 2 ^ 64) (bitBound : bit < 64) :
    (word &&& wordNot (1 <<< bit)).testBit index =
      (word.testBit index && ! decide (bit = index)) := by
  have shiftBound : 1 <<< bit < 2 ^ 64 := by
    rw [Nat.one_shiftLeft]
    exact Nat.pow_lt_pow_right (by decide) bitBound
  rw [Nat.testBit_and, testBit_wordNot shiftBound, Nat.one_shiftLeft,
    Nat.testBit_two_pow]
  by_cases low : index < 64
  · simp [low]
  · simp [testBit_eq_false_of_width bounded (by omega : 64 ≤ index)]

theorem testBit_and_high {word bit : Nat} (index : Nat)
    (bounded : word < 2 ^ 64) (bitBound : bit ≤ 64) :
    (word &&& wordNot (2 ^ bit - 1)).testBit index =
      (word.testBit index && decide (bit ≤ index)) := by
  have maskBound : 2 ^ bit - 1 < 2 ^ 64 := by
    have := Nat.pow_le_pow_right (n := 2) (by decide) bitBound
    have := Nat.two_pow_pos bit
    omega
  rw [Nat.testBit_and, testBit_wordNot maskBound, Nat.testBit_two_pow_sub_one]
  by_cases low : index < 64
  · by_cases under : index < bit
    · have notLe : ¬ bit ≤ index := by omega
      simp [under, notLe]
    · have le : bit ≤ index := by omega
      simp [low, le, under]
  · simp [testBit_eq_false_of_width bounded (by omega : 64 ≤ index)]

theorem or_shift_lt {word bit : Nat} (bounded : word < 2 ^ 64)
    (bitBound : bit < 64) : word ||| 1 <<< bit < 2 ^ 64 := by
  refine Nat.or_lt_two_pow bounded ?_
  rw [Nat.one_shiftLeft]
  exact Nat.pow_lt_pow_right (by decide) bitBound

theorem and_lt_of_left {word mask : Nat} (bounded : word < 2 ^ 64) :
    word &&& mask < 2 ^ 64 :=
  Nat.lt_of_le_of_lt Nat.and_le_left bounded

end Allocazam
