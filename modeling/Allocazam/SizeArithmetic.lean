import Mathlib.Data.Nat.Bitwise
import Mathlib.Order.Bounds.Defs
import Mathlib.Tactic.Ring

/-!
# Machine-word arithmetic

The allocators compute on 64-bit `size_t` values.  A word is a natural number
below `2 ^ 64`; unchecked C++ additions and subtractions are the wrapping
operations below, and the checked operations of the source return `none` where
the source returns `false`.
-/

namespace Allocazam

/-- Unchecked `size_t` addition. -/
def wrapAdd (lhs rhs : Nat) : Nat :=
  (lhs + rhs) % 2 ^ 64

/-- Unchecked `size_t` subtraction. -/
def wrapSub (lhs rhs : Nat) : Nat :=
  (lhs + 2 ^ 64 - rhs) % 2 ^ 64

/-- Unchecked `size_t` multiplication. -/
def wrapMul (lhs rhs : Nat) : Nat :=
  lhs * rhs % 2 ^ 64

/-- `--` on a `size_t`. -/
def decrement (value : Nat) : Nat :=
  if value = 0 then 2 ^ 64 - 1 else value - 1

/-- Bitwise complement of a `size_t`. -/
def wordNot (value : Nat) : Nat :=
  2 ^ 64 - 1 - value

/-- `checked_add`: the sum, unless it exceeds the largest word. -/
def checkedAdd (lhs rhs : Nat) : Option Nat :=
  if lhs > (2 ^ 64 - 1) - rhs then none else some (lhs + rhs)

/-- `checked_mul`: the product, unless it exceeds the largest word. -/
def checkedMul (lhs rhs : Nat) : Option Nat :=
  if lhs = 0 ∨ rhs = 0 then some 0
  else if lhs > (2 ^ 64 - 1) / rhs then none
  else some (lhs * rhs)

def checkedRoundToMultipleOf (value multiple : Nat) : Option Nat :=
  if multiple = 0 then none
  else if value % multiple = 0 then some value
  else checkedAdd value (multiple - value % multiple)

/-- `std::has_single_bit`. -/
def hasSingleBit (value : Nat) : Bool :=
  value != 0 && (value &&& (value - 1)) == 0

/-- `std::bit_width`. -/
def bitWidth (value : Nat) : Nat :=
  if value = 0 then 0 else Nat.log2 value + 1

theorem wrapAdd_eq {lhs rhs : Nat} (bounded : lhs + rhs < 2 ^ 64) :
    wrapAdd lhs rhs = lhs + rhs :=
  Nat.mod_eq_of_lt bounded

theorem wrapSub_eq {lhs rhs : Nat} (ordered : rhs ≤ lhs)
    (bounded : lhs < 2 ^ 64) : wrapSub lhs rhs = lhs - rhs := by
  unfold wrapSub
  omega

theorem wrapMul_eq {lhs rhs : Nat} (bounded : lhs * rhs < 2 ^ 64) :
    wrapMul lhs rhs = lhs * rhs :=
  Nat.mod_eq_of_lt bounded

theorem decrement_eq {value : Nat} (positive : 0 < value) :
    decrement value = value - 1 :=
  if_neg positive.ne'

/-- The sum may wrap around to zero before the subtraction. -/
theorem wrapSub_wrapAdd_one {lhs rhs : Nat} (positive : 0 < rhs)
    (bounded : lhs + rhs ≤ 2 ^ 64) :
    wrapSub (wrapAdd lhs rhs) 1 = lhs + rhs - 1 := by
  unfold wrapSub wrapAdd
  omega

theorem checkedAdd_eq_some {lhs rhs sum : Nat} (rhsBound : rhs < 2 ^ 64) :
    checkedAdd lhs rhs = some sum ↔ lhs + rhs < 2 ^ 64 ∧ sum = lhs + rhs := by
  unfold checkedAdd
  split <;> simp <;> omega

theorem checkedAdd_eq_none {lhs rhs : Nat} (rhsBound : rhs < 2 ^ 64) :
    checkedAdd lhs rhs = none ↔ 2 ^ 64 ≤ lhs + rhs := by
  unfold checkedAdd
  split <;> simp <;> omega

theorem checkedMul_eq_some {lhs rhs product : Nat} :
    checkedMul lhs rhs = some product ↔
      lhs * rhs < 2 ^ 64 ∧ product = lhs * rhs := by
  unfold checkedMul
  by_cases degenerate : lhs = 0 ∨ rhs = 0
  · have vanishes : lhs * rhs = 0 := Nat.mul_eq_zero.mpr degenerate
    simp [degenerate, vanishes, eq_comm]
  · have positive : 0 < rhs := by omega
    have fits : lhs > (2 ^ 64 - 1) / rhs ↔ ¬ lhs * rhs < 2 ^ 64 := by
      rw [gt_iff_lt, Nat.div_lt_iff_lt_mul positive]
      omega
    rw [if_neg degenerate]
    by_cases overflow : lhs > (2 ^ 64 - 1) / rhs
    · rw [if_pos overflow]
      have tooLarge := fits.mp overflow
      exact ⟨fun none => by simp at none, fun both => absurd both.1 tooLarge⟩
    · rw [if_neg overflow]
      have bounded : lhs * rhs < 2 ^ 64 := by
        by_contra tooLarge
        exact overflow (fits.mpr tooLarge)
      exact ⟨fun same => ⟨bounded, (Option.some.inj same).symm⟩,
        fun both => congrArg some both.2.symm⟩

theorem checkedMul_eq_none {lhs rhs : Nat} :
    checkedMul lhs rhs = none ↔ 2 ^ 64 ≤ lhs * rhs := by
  constructor
  · intro overflow
    by_contra small
    have product := checkedMul_eq_some.mpr ⟨Nat.lt_of_not_le small, rfl⟩
    rw [overflow] at product
    simp at product
  · intro large
    cases result : checkedMul lhs rhs with
    | none => rfl
    | some product =>
        have small := (checkedMul_eq_some.mp result).1
        omega

theorem checkedRoundToMultipleOf_eq_some {value multiple rounded : Nat}
    (multipleBound : multiple < 2 ^ 64)
    (result : checkedRoundToMultipleOf value multiple = some rounded) :
    value ≤ rounded ∧ multiple ∣ rounded ∧ rounded < value + multiple ∧
      0 < multiple := by
  unfold checkedRoundToMultipleOf at result
  by_cases zero : multiple = 0
  · simp [zero] at result
  rw [if_neg zero] at result
  by_cases exact : value % multiple = 0
  · rw [if_pos exact] at result
    obtain rfl := Option.some.inj result
    exact ⟨le_rfl, Nat.dvd_of_mod_eq_zero exact, by omega, by omega⟩
  · rw [if_neg exact, checkedAdd_eq_some (by omega)] at result
    have remainder : value % multiple < multiple := Nat.mod_lt _ (by omega)
    have division := Nat.mod_add_div value multiple
    refine ⟨by omega, ⟨value / multiple + 1, ?_⟩, by omega, by omega⟩
    rw [Nat.mul_add, Nat.mul_one]
    omega

theorem checkedRoundToMultipleOf_lt {value multiple rounded : Nat}
    (valueBound : value < 2 ^ 64) (multipleBound : multiple < 2 ^ 64)
    (result : checkedRoundToMultipleOf value multiple = some rounded) :
    rounded < 2 ^ 64 := by
  unfold checkedRoundToMultipleOf at result
  split at result
  · simp at result
  split at result
  · obtain rfl := Option.some.inj result
    exact valueBound
  · rw [checkedAdd_eq_some (by omega)] at result
    omega

/-- Rounding returns the least multiple that covers the value. -/
theorem checkedRoundToMultipleOf_isLeast {value multiple rounded : Nat}
    (multipleBound : multiple < 2 ^ 64)
    (result : checkedRoundToMultipleOf value multiple = some rounded) :
    IsLeast {covering | multiple ∣ covering ∧ value ≤ covering} rounded := by
  obtain ⟨covers, divides, close, positive⟩ :=
    checkedRoundToMultipleOf_eq_some multipleBound result
  constructor
  · exact ⟨divides, covers⟩
  · rintro other ⟨⟨count, rfl⟩, above⟩
    obtain ⟨least, rfl⟩ := divides
    have below : least < count + 1 := by
      apply Nat.lt_of_mul_lt_mul_left (a := multiple)
      rw [Nat.mul_add, Nat.mul_one]
      omega
    exact Nat.mul_le_mul_left multiple (by omega)

/-- Rounding fails when every multiple that covers the value is too large. -/
theorem checkedRoundToMultipleOf_eq_none {value multiple : Nat}
    (positive : 0 < value) (valueBound : value < 2 ^ 64)
    (multipleBound : multiple < 2 ^ 64) :
    checkedRoundToMultipleOf value multiple = none ↔
      ∀ covering, multiple ∣ covering → value ≤ covering →
        2 ^ 64 ≤ covering := by
  constructor
  · intro failed covering divides covers
    unfold checkedRoundToMultipleOf at failed
    obtain ⟨count, rfl⟩ := divides
    split at failed
    · rename_i zero
      subst zero
      omega
    split at failed
    · cases failed
    rw [checkedAdd_eq_none (by omega)] at failed
    have division := Nat.mod_add_div value multiple
    have remainder : value % multiple < multiple := Nat.mod_lt _ (by omega)
    have above : value / multiple < count := by
      apply Nat.lt_of_mul_lt_mul_left (a := multiple)
      omega
    have next : multiple * (value / multiple + 1) ≤ multiple * count :=
      Nat.mul_le_mul_left multiple above
    rw [Nat.mul_add, Nat.mul_one] at next
    omega
  · intro large
    cases rounded : checkedRoundToMultipleOf value multiple with
    | none => rfl
    | some result =>
        have bounds := checkedRoundToMultipleOf_eq_some multipleBound rounded
        have word := checkedRoundToMultipleOf_lt valueBound multipleBound rounded
        have overflow := large result bounds.2.1 bounds.1
        omega

theorem checkedRoundToMultipleOf_of_dvd {value multiple : Nat}
    (positive : 0 < multiple) (exact : multiple ∣ value) :
    checkedRoundToMultipleOf value multiple = some value := by
  unfold checkedRoundToMultipleOf
  rw [if_neg (by omega), if_pos (Nat.mod_eq_zero_of_dvd exact)]

/-- Clearing the low `bits` bits rounds down to a multiple of `2 ^ bits`. -/
theorem and_wordNot_lowMask {value : Nat} (bits : Nat) (bounded : value < 2 ^ 64)
    (bitsBound : bits ≤ 64) :
    value &&& wordNot (2 ^ bits - 1) = value / 2 ^ bits * 2 ^ bits := by
  apply Nat.eq_of_testBit_eq
  intro index
  have maskBound : 2 ^ bits - 1 < 2 ^ 64 := by
    have := Nat.pow_le_pow_right (n := 2) (by decide) bitsBound
    have := Nat.two_pow_pos bits
    omega
  have complement : wordNot (2 ^ bits - 1) =
      2 ^ 64 - ((2 ^ bits - 1) + 1) := by
    unfold wordNot
    omega
  rw [Nat.testBit_and, complement, Nat.testBit_two_pow_sub_succ maskBound,
    Nat.testBit_two_pow_sub_one, Nat.testBit_mul_two_pow,
    Nat.testBit_div_two_pow]
  by_cases low : index < bits
  · have notLe : ¬ bits ≤ index := by omega
    simp [low, notLe]
  · have le : bits ≤ index := by omega
    by_cases high : index < 64
    · simp [low, le, high]
    · have vanishes : value.testBit index = false :=
        Nat.testBit_lt_two_pow (lt_of_lt_of_le bounded
          (Nat.pow_le_pow_right (by decide) (by omega)))
      simp [vanishes, le]

theorem bitWidth_le_of_lt {value bits : Nat} (bounded : value < 2 ^ bits) :
    bitWidth value ≤ bits := by
  unfold bitWidth
  split
  · omega
  · rename_i positive
    have := (Nat.log2_lt positive).mpr bounded
    omega

theorem lt_two_pow_bitWidth (value : Nat) : value < 2 ^ bitWidth value := by
  unfold bitWidth
  split
  · rename_i zero
    simp [zero]
  · exact Nat.lt_log2_self

theorem bitWidth_mono {first second : Nat} (ordered : first ≤ second) :
    bitWidth first ≤ bitWidth second :=
  bitWidth_le_of_lt (lt_of_le_of_lt ordered (lt_two_pow_bitWidth second))

end Allocazam
