import Mathlib.Algebra.BigOperators.Group.List.Basic
import Mathlib.Data.List.Chain
import Mathlib.Tactic.Ring

/-!
# Geometric growth

Lists of sizes, the latest first, in which each size is at least twice the one before.
All sizes together are then less than twice the latest, and there are no more of them
than the latest has binary digits.
-/

namespace Allocazam

/-- Each size is at least twice the next in the list. -/
def Doubling (sizes : List Nat) : Prop :=
  sizes.IsChain fun newer older => 2 * older ≤ newer

namespace Doubling

variable {newest size least : Nat} {sizes : List Nat}

theorem tail (doubling : Doubling (newest :: sizes)) : Doubling sizes :=
  List.IsChain.tail doubling

theorem cons (doubling : Doubling sizes) (twice : ∀ older ∈ sizes.head?, 2 * older ≤ newest) :
    Doubling (newest :: sizes) :=
  List.IsChain.cons doubling twice

theorem twice_le (doubling : Doubling (newest :: size :: sizes)) : 2 * size ≤ newest :=
  (List.isChain_cons_cons.mp doubling).1

/-- The sizes before the latest and once more the least are no more than the latest. -/
theorem sum_add_le (doubling : Doubling (newest :: sizes))
    (atLeast : ∀ size ∈ newest :: sizes, least ≤ size) : sizes.sum + least ≤ newest := by
  induction sizes generalizing newest with
  | nil => simpa using atLeast newest (by simp)
  | cons second rest ih =>
      have twice := doubling.twice_le
      have later := ih doubling.tail fun size member =>
        atLeast size (List.mem_cons_of_mem _ member)
      rw [List.sum_cons]
      omega

theorem two_pow_mul_le (doubling : Doubling (newest :: sizes))
    (atLeast : ∀ size ∈ newest :: sizes, least ≤ size) :
    2 ^ sizes.length * least ≤ newest := by
  induction sizes generalizing newest with
  | nil => simpa using atLeast newest (by simp)
  | cons second rest ih =>
      have twice := doubling.twice_le
      have later := ih doubling.tail fun size member =>
        atLeast size (List.mem_cons_of_mem _ member)
      calc 2 ^ (rest.length + 1) * least = 2 * (2 ^ rest.length * least) := by ring
        _ ≤ 2 * second := Nat.mul_le_mul_left 2 later
        _ ≤ newest := twice

end Doubling

end Allocazam
