import Allocazam.SuballocatedRunners

/-!
# Growth of the runners of the threads

The runner of every thread state stays one whose requests for the run cache only
the OS can fail.
-/

namespace Allocazam

namespace Suballocated

variable {Value Thread Bound : Type} {fam : Family Value Thread Bound}
  {w : World Value Thread Bound} {value : Value} {thread : Thread} {idx : Nat}

/-- The sizes of the runners of the threads are in order. -/
def World.Growing (fam : Family Value Thread Bound)
    (w : World Value Thread Bound) : Prop :=
  ∀ value thread, w.created (.thread value thread) = true →
    Runner.Growing (fam.runsConfig (.thread value thread))
      (w.states (.thread value thread)).runs

/-- What a dynamic allocator's runners keep under systems whose memory ends below
the middle of the address space. -/
theorem growingRule (dynamic : fam.mode = MemoryMode.dynamic) :
    RunnerRule fam Runner.Os.LowHalf Runner.Growing where
  quiet _ same growing := growing.of_sizing same
  allocates bytes alignment low growing :=
    Runner.allocateBytes_growing growing low bytes alignment
  lazy value thread mem stateless := by
    have huge : fam.huge = false := by
      unfold Family.stateless at stateless
      simp only [Bool.and_eq_true, Bool.not_eq_true'] at stateless
      exact stateless.2
    have granularity : Runner.State.ownedChunkGranularity
        (fam.runsConfig (.thread value thread)) = fam.pageSize := by
      unfold Runner.State.ownedChunkGranularity
      exact if_neg (by simp [Family.runsConfig, huge])
    obtain ⟨bits, _, bounded, pages⟩ := fam.pageBits
    have positive : 0 < 2 ^ bits := Nat.two_pow_pos bits
    have half : 2 ^ bits ≤ 2 ^ 63 := Nat.pow_le_pow_right (by decide) (by omega)
    unfold Family.lazyState
    rw [if_pos dynamic]
    exact
      { positive := by rw [granularity, pages]; exact positive
        granularity := by rw [granularity, pages]; exact half
        deferred := by
          show max 65536 1 ≤ 65536
          decide
        next := by
          left
          show max 65536 65536 ≤ 65536
          decide }

variable [DecidableEq Value] [DecidableEq Thread] [DecidableEq Bound]

theorem World.Growing.refill_refused (growing : w.Growing fam)
    (created : w.created (.thread value thread) = true) {os : Nat → Runner.Os}
    (low : ∀ i, (os i).LowHalf) (bounded : idx < tlsRunClassCount) (rounds : Nat)
    {exn : Exn}
    (thrown : (World.refill fam value thread (.thread value thread) os idx rounds
      w).2 = .error exn) : exn = .refused := by
  induction rounds generalizing w with
  | zero => cases thrown
  | succ rounds ih =>
      have after : (w.allocateBytes fam (.thread value thread) (os (rounds + 2))
          (tlsClassBytes idx) (fam.alignOf value)).1.Growing fam :=
        World.Throughout.setRuns growing fun before =>
          Runner.allocateBytes_growing before (low (rounds + 2)) _ _
      have kept : (w.allocateBytes fam (.thread value thread) (os (rounds + 2))
          (tlsClassBytes idx) (fam.alignOf value)).1.created = w.created := rfl
      have small : tlsClassBytes idx ≤ 4096 := by
        have count : tlsRunClassCount = 256 := by decide
        unfold tlsClassBytes tlsRunQuantum
        omega
      have refused : ∀ exn, (w.allocateBytes fam (.thread value thread)
          (os (rounds + 2)) (tlsClassBytes idx) (fam.alignOf value)).2 =
            .error exn → exn = .refused := fun exn failed =>
        Runner.allocateBytes_refused (growing value thread created) small failed
      unfold World.refill at thrown
      generalize w.allocateBytes fam (.thread value thread) (os (rounds + 2))
        (tlsClassBytes idx) (fam.alignOf value) = outcome
          at after kept refused thrown
      obtain ⟨w', failure | extra⟩ := outcome
      · obtain rfl : failure = exn := Except.error.inj thrown
        exact refused _ rfl
      · dsimp only at after kept thrown
        split at thrown
        · cases thrown
        · have stocked : (w'.tlsPush value thread idx extra
              (fam.runsAt (.thread value thread))).Growing fam :=
            World.Throughout.of_states after rfl rfl
          have still : (w'.tlsPush value thread idx extra
              (fam.runsAt (.thread value thread))).created
                (.thread value thread) = true := by
            rw [← kept] at created
            exact created
          exact ih stocked still thrown

end Suballocated

end Allocazam
