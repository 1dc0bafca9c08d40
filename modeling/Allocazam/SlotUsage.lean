import Allocazam.NumberedSlots
import Mathlib.Algebra.Order.Ring.Nat
import Mathlib.Tactic.GCongr
import Mathlib.Tactic.Ring

/-!
# The use of numbered slots

Slots are asked for when all that there are are in use, as many more as doubling the last
request gives.  So there are never many more than were in use at once, unless requests
failed: a request that fails is doubled all the same.
-/

namespace Allocazam

def failures {Failure Value : Type*} : Except Failure Value → Nat
  | .ok _ => 0
  | .error _ => 1

theorem failures_map {Failure Value Other : Type*} (f : Value → Other)
    (result : Except Failure Value) : failures (result.map f) = failures result := by
  cases result <;> rfl

namespace Slots

variable {Failure : Type*} {policy : Policy Failure} {supply : Nat → Except Failure Unit}
  {slots : Slots} {first peak peak' failed failed' count : Nat}

/-- How many slots there may be when the first request was for `first` slots, at most
`peak` slots were in use at once and `failed` requests failed. -/
def allowance (first peak failed : Nat) : Nat :=
  (peak - 1) + (peak - 1 + first) * 2 ^ failed

theorem allowance_mono (more : peak ≤ peak') (later : failed ≤ failed') :
    allowance first peak failed ≤ allowance first peak' failed' := by
  unfold allowance
  gcongr
  decide

/-- The slots are within their allowance, and so are those that will be asked for. -/
structure Frugal (first peak failed : Nat) (slots : Slots) : Prop where
  conserved : slots.Conserved
  used : slots.live.length ≤ peak
  step : slots.count = 0 ∧ slots.step ≤ first ∨
    2 * slots.step ≤ (slots.count + first) * 2 ^ failed
  bound : slots.count ≤ allowance first peak failed

theorem Conserved.full (conserved : slots.Conserved) (free : slots.free = [])
    (parked : slots.parked = []) : slots.live.length = slots.count := by
  have lengths := conserved.length_eq
  rw [free, parked, List.length_range] at lengths
  exact lengths

theorem reclaim_parked (none : slots.reclaim.free = []) : slots.reclaim.parked = [] := by
  unfold reclaim at *
  split at none
  · rename_i empty
    rw [if_pos empty]
  · rename_i some
    exact absurd none some

namespace Frugal

theorem mono (frugal : slots.Frugal first peak failed) (more : peak ≤ peak')
    (later : failed ≤ failed') : slots.Frugal first peak' failed' where
  conserved := frugal.conserved
  used := frugal.used.trans more
  step := by
    refine frugal.step.imp_right fun step => step.trans ?_
    gcongr
    decide
  bound := frugal.bound.trans (allowance_mono more later)

/-- At first there are no slots, or those that were asked for. -/
theorem start {step : Nat}
    (begins : count = 0 ∧ step = first ∨ count = first ∧ step ≤ first) :
    ((blank step).extend count).Frugal first 0 0 where
  conserved := (Conserved.blank step).extend count
  used := le_rfl
  step := by
    rcases begins with ⟨rfl, rfl⟩ | ⟨rfl, small⟩
    · exact .inl ⟨rfl, le_rfl⟩
    · refine .inr ?_
      show 2 * step ≤ (0 + count + count) * 2 ^ 0
      omega
  bound := by
    show 0 + count ≤ 0 - 1 + (0 - 1 + first) * 2 ^ 0
    omega

variable (frugal : slots.Frugal first peak failed)

include frugal

theorem reclaim : slots.reclaim.Frugal first peak failed := by
  have conserved := frugal.conserved.reclaim
  unfold Slots.reclaim at conserved ⊢
  split
  · rename_i empty
    rw [if_pos empty] at conserved
    exact ⟨conserved, frugal.used, frugal.step, frugal.bound⟩
  · exact frugal

theorem handOut :
    slots.handOut.1.Frugal first (max peak slots.handOut.1.live.length) failed := by
  have conserved := frugal.conserved.handOut
  have before := frugal.mono (le_max_left peak slots.handOut.1.live.length) le_rfl
  unfold Slots.handOut at *
  split
  · rename_i empty
    rw [empty] at before
    exact before
  · rename_i slot free listed
    rw [listed] at conserved before
    exact ⟨conserved, le_max_right _ _, before.step, before.bound⟩

/-- Asking for more slots when all are in use. -/
theorem stock (full : slots.live.length = slots.count)
    (fits : count ≤ (slots.count + first) * 2 ^ failed) {step : Nat}
    (kept : slots.count = 0 ∧ step ≤ first ∨
      2 * step ≤ (slots.count + first) * 2 ^ (failed + 1))
    (grown : 2 * step ≤ (slots.count + count + first) * 2 ^ failed) :
    (Slots.stock supply { slots with step } count).1.Frugal first
      (max peak (Slots.stock supply { slots with step } count).1.live.length)
      (failed + failures (Slots.stock supply { slots with step } count).2) := by
  have conserved := (frugal.conserved.withStep step).stock supply count
  unfold Slots.stock at conserved ⊢
  split
  · rename_i failure refused
    exact
      { conserved := frugal.conserved
        used := frugal.used.trans (le_max_left _ _)
        step := kept
        bound := frugal.bound.trans (allowance_mono (le_max_left _ _) (Nat.le_add_right _ _)) }
  · rename_i supplied
    rw [supplied] at conserved
    dsimp only at conserved ⊢
    refine ⟨conserved, le_max_right _ _, .inr ?_, ?_⟩
    · unfold Slots.handOut
      split <;> exact grown
    · unfold Slots.handOut Slots.extend
      split
      · rename_i none
        obtain ⟨rfl, _⟩ : count = 0 ∧ slots.free = [] := by simpa using none
        exact frugal.bound.trans (allowance_mono (le_max_left _ _) le_rfl)
      · -- The slots there were are all in use, and one more.
        rename_i slot free listed
        show slots.count + count ≤
          allowance first (max peak (slots.live.length + 1)) failed
        have most : slots.count ≤ max peak (slots.live.length + 1) - 1 := by omega
        generalize max peak (slots.live.length + 1) = peak' at most ⊢
        unfold allowance
        calc slots.count + count
            ≤ slots.count + (slots.count + first) * 2 ^ failed := by omega
          _ ≤ (peak' - 1) + (peak' - 1 + first) * 2 ^ failed := by gcongr

theorem demand (full : slots.live.length = slots.count) :
    (slots.demand policy supply).1.Frugal first
      (max peak (slots.demand policy supply).1.live.length)
      (failed + failures (slots.demand policy supply).2) := by
  have before : ∀ peak' failed', slots.Frugal first (max peak peak') (failed + failed') :=
    fun peak' failed' => frugal.mono (le_max_left _ _) (Nat.le_add_right _ _)
  have positive : 0 < 2 ^ failed := Nat.two_pow_pos failed
  have doubled : 2 ^ (failed + 1) = 2 * 2 ^ failed := by ring
  unfold Slots.demand
  split
  · rename_i deferred
    obtain ⟨none, _⟩ := deferred
    -- The first request, whether or not it was made before.
    refine frugal.stock full ?_ ?_ ?_
    · rcases frugal.step with ⟨_, small⟩ | small
      · rw [none, Nat.zero_add]
        exact small.trans (Nat.le_mul_of_pos_right _ positive)
      · omega
    · refine frugal.step.imp_right fun small => small.trans ?_
      gcongr
      · decide
      · omega
    · rcases frugal.step with ⟨_, small⟩ | small
      · refine le_trans ?_ (Nat.le_mul_of_pos_right _ positive)
        omega
      · refine small.trans ?_
        gcongr
        omega
  rename_i populated
  split
  · exact before _ _
  split
  · exact before _ _
  · have twice : 2 * slots.step ≤ (slots.count + first) * 2 ^ failed := by
      rcases frugal.step with ⟨none, _⟩ | small
      · have blank : slots.step = 0 := by
          by_contra some
          exact populated ⟨none, some⟩
        omega
      · exact small
    refine frugal.stock full twice (.inr ?_) ?_
    · rw [doubled]
      calc 2 * (2 * slots.step) ≤ 2 * ((slots.count + first) * 2 ^ failed) := by gcongr
        _ = (slots.count + first) * (2 * 2 ^ failed) := by ring
    · calc 2 * (2 * slots.step) = 2 * slots.step + 2 * slots.step := by ring
        _ ≤ (slots.count + first) * 2 ^ failed + 2 * slots.step * 2 ^ failed :=
          Nat.add_le_add twice (Nat.le_mul_of_pos_right _ positive)
        _ = (slots.count + 2 * slots.step + first) * 2 ^ failed := by ring

theorem allocate (policy : Policy Failure) (supply : Nat → Except Failure Unit) :
    (slots.allocate policy supply).1.Frugal first
      (max peak (slots.allocate policy supply).1.live.length)
      (failed + failures (slots.allocate policy supply).2) := by
  have reclaimed := frugal.reclaim
  unfold Slots.allocate
  cases listed : slots.reclaim.free with
  | nil =>
      have none : slots.reclaim.handOut = (slots.reclaim, Option.none) := by
        unfold Slots.handOut
        rw [listed]
      rw [none]
      exact reclaimed.demand (reclaimed.conserved.full listed (reclaim_parked listed))
  | cons slot rest =>
      have handed := reclaimed.handOut
      have some : slots.reclaim.handOut =
          (slots.reclaim.handOut.1, Option.some slot) := by
        unfold Slots.handOut
        rw [listed]
      rw [some]
      exact handed

theorem release {slot : Nat} (held : slot ∈ slots.live) :
    (slots.release slot).Frugal first peak failed where
  conserved := frugal.conserved.release held
  used := List.length_erase_le.trans frugal.used
  step := frugal.step
  bound := frugal.bound

theorem park {slot : Nat} (held : slot ∈ slots.live) :
    (slots.park slot).Frugal first peak failed where
  conserved := frugal.conserved.park held
  used := List.length_erase_le.trans frugal.used
  step := frugal.step
  bound := frugal.bound

end Frugal

end Slots

end Allocazam
