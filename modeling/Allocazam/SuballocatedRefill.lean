import Allocazam.SuballocatedClassifier
import Allocazam.SuballocatedStarvation
import Allocazam.SuballocatedWhereabouts

/-!
# Failures of the refill loop

The thread-cached allocation refills the cache when it has the run for the
request already.  A refill that throws takes the request with it, and the run is
with nobody from then on.
-/

namespace Allocazam

namespace Suballocated

variable {Value Thread Bound : Type} [DecidableEq Value] [DecidableEq Thread]
  [DecidableEq Bound] {fam : Family Value Thread Bound}
  {w w' : World Value Thread Bound} {ledger : Ledger Value Thread Bound}
  {session : Session fam} {value : Value} {thread : Thread}
  {a : Handle fam value} {env : Environment} {n idx : Nat}

omit [DecidableEq Bound] in
theorem World.tlsPopWalk_null {owner fuel prev node : Nat}
    (none : (w.tlsPopWalk value thread idx owner fuel prev node).2 = 0) :
    w.tlsPopWalk value thread idx owner fuel prev node = (w, 0) := by
  induction fuel generalizing prev node with
  | zero => rfl
  | succ fuel ih =>
      unfold World.tlsPopWalk at none ⊢
      by_cases null : node = 0
      · rw [if_pos null]
      rw [if_neg null] at none ⊢
      by_cases foreign : w.mem (node + 8) ≠ owner
      · rw [if_pos foreign] at none ⊢
        exact ih none
      · rw [if_neg foreign] at none
        dsimp only at none
        split at none <;> exact absurd none null

/-- The call has found no run in its class list, and the runner has served the request. -/
structure World.Obtained (fam : Family Value Thread Bound) (w : World Value Thread Bound)
    (a : Handle fam value) (thread : Thread) (env : Environment) (bytes : Nat)
    (w' : World Value Thread Bound) (raw : Nat) : Prop where
  nonnull : raw ≠ 0
  obtained : ∃ w₁, w.runsPtr fam a thread env.room = (w₁, .ok (a.siteOn thread)) ∧
    (w₁.tlsPopForOwner value thread (tlsClassIndexFor bytes)
      (fam.runsAt (a.siteOn thread))).2 = 0 ∧
    w₁.obtain fam value thread (a.siteOn thread) env.os (tlsClassIndexFor bytes) =
      (w', .ok raw)

/-- Once a run was obtained, the refill decides how the call ends. -/
theorem World.Obtained.result {bytes raw : Nat}
    (obtained : w.Obtained fam a thread env bytes w' raw) (several : 2 ≤ n)
    (bounded : n ≤ fam.maxSize value)
    (multiplied : checkedMul n (fam.sizeOf value) = some bytes)
    (cached : a.canUseTlsRunCache bytes = true) :
    (w.allocate fam a thread env n).2 =
      (w'.refillAndHandOut fam value thread (a.siteOn thread) env.os
        (tlsClassIndexFor bytes) raw).2 := by
  obtain ⟨nonnull, w₁, resolved, popped, obtained⟩ := obtained
  have nothing : w₁.tlsPopForOwner value thread (tlsClassIndexFor bytes)
      (fam.runsAt (a.siteOn thread)) = (w₁, 0) := World.tlsPopWalk_null popped
  have given : ∀ p, (w'.refillAndHandOut fam value thread (a.siteOn thread) env.os
      (tlsClassIndexFor bytes) raw).2 = .ok p → p ≠ 0 := by
    intro p
    unfold World.refillAndHandOut
    split
    · generalize World.refill fam value thread (a.siteOn thread) env.os
        (tlsClassIndexFor bytes) (tlsRefillBatch - 1) w' = outcome
      obtain ⟨w₂, exn | done⟩ := outcome
      · rintro ⟨⟩
      · rintro ⟨⟩
        exact nonnull
    · rintro ⟨⟩
      exact nonnull
  have served : w.allocateFromTlsRunCache fam a thread env bytes =
      w'.refillAndHandOut fam value thread (a.siteOn thread) env.os
        (tlsClassIndexFor bytes) raw := by
    unfold World.allocateFromTlsRunCache
    rw [resolved]
    dsimp only
    rw [nothing]
    dsimp only
    rw [if_neg (by simp), World.allocateForCache_eq, obtained]
    dsimp only
    rw [if_neg nonnull]
  unfold World.allocate
  rw [if_neg (by omega), if_neg (by omega), if_neg (by omega), multiplied]
  dsimp only
  rw [if_pos cached, served]
  generalize w'.refillAndHandOut fam value thread (a.siteOn thread) env.os
    (tlsClassIndexFor bytes) raw = outcome at given ⊢
  obtain ⟨w₂, exn | p⟩ := outcome
  · rfl
  · dsimp only
    unfold World.allocateRest
    rw [if_pos (given p rfl)]

/-- A call that loses a run throws what the refill threw. -/
theorem World.LosesRun.thrown (lost : w.LosesRun fam a thread env n)
    (bounded : n ≤ fam.maxSize value) :
    ∃ bytes w' raw exn,
      checkedMul n (fam.sizeOf value) = some bytes ∧
      a.canUseTlsRunCache bytes = true ∧
      w.Obtained fam a thread env bytes w' raw ∧
      (World.refill fam value thread (a.siteOn thread) env.os
        (tlsClassIndexFor bytes) (tlsRefillBatch - 1) w').2 = .error exn ∧
      (w.allocate fam a thread env n).2 = .error exn := by
  obtain ⟨several, bytes, w₁, multiplied, cached, resolved, popped, dynamic, raw,
    w', nonnull, obtained, exn, failed⟩ := lost
  have served : w.Obtained fam a thread env bytes w' raw :=
    ⟨nonnull, w₁, resolved, popped, obtained⟩
  refine ⟨bytes, w', raw, exn, multiplied, cached, served, failed, ?_⟩
  rw [served.result several bounded multiplied cached]
  unfold World.refillAndHandOut
  rw [if_pos dynamic]
  generalize World.refill fam value thread (a.siteOn thread) env.os
    (tlsClassIndexFor bytes) (tlsRefillBatch - 1) w' = outcome at failed ⊢
  obtain ⟨w₂, result⟩ := outcome
  dsimp only at failed
  rw [failed]

theorem World.Obtained.handed_out {bytes raw : Nat}
    (obtained : w.Obtained fam a thread env bytes w' raw) (several : 2 ≤ n)
    (bounded : n ≤ fam.maxSize value)
    (multiplied : checkedMul n (fam.sizeOf value) = some bytes)
    (cached : a.canUseTlsRunCache bytes = true)
    (safe : ¬ w.LosesRun fam a thread env n) :
    (w.allocate fam a thread env n).2 = .ok raw := by
  rw [obtained.result several bounded multiplied cached]
  obtain ⟨nonnull, w₁, resolved, popped, obtained⟩ := obtained
  unfold World.refillAndHandOut
  split
  · rename_i dynamic
    have ends : ∀ exn, (World.refill fam value thread (a.siteOn thread) env.os
        (tlsClassIndexFor bytes) (tlsRefillBatch - 1) w').2 ≠ .error exn :=
      fun exn failed => safe ⟨several, bytes, w₁, multiplied, cached, resolved, popped,
        dynamic, raw, w', nonnull, obtained, exn, failed⟩
    generalize World.refill fam value thread (a.siteOn thread) env.os
      (tlsClassIndexFor bytes) (tlsRefillBatch - 1) w' = outcome at ends ⊢
    obtain ⟨w₂, exn | done⟩ := outcome
    · exact absurd rfl (ends exn)
    · rfl
  · rfl

/-- After an allocation has thrown, all runs of the runner it turned to are
accounted for just when the call lost none. -/
theorem SessionOk.thrown_accounted_iff (ok : SessionOk session ledger)
    (moored : ledger.Moored)
    (allowed : session.Allows (.allocate a thread env n))
    (bounded : n ≤ fam.maxSize value) {w' : World Value Thread Bound} {exn : Exn}
    (result : session.world.allocate fam a thread env n = (w', .error exn)) :
    Session.Accounted { session with world := w' } (a.siteOn thread) ↔
      ¬ session.world.LosesRun fam a thread env n := by
  obtain ⟨alive, usable, avoids, _⟩ := allowed
  have outcome : AllocateOutcome fam session.live ledger a thread n
      (n ≤ fam.maxSize value ∧ session.world.LosesRun fam a thread env n)
      (session.world.allocate fam a thread env n) :=
    ok.world.allocate usable avoids
  rw [result] at outcome
  cases outcome with
  | @throws _ _ next loose after served owned lost =>
    have done : SessionOk ({ session with world := w' } : Session fam) next :=
      ⟨after, ok.served_cached served alive⟩
    constructor
    · rintro accounted loses
      obtain ⟨q, listed⟩ := List.exists_mem_of_ne_nil loose
        (lost.mpr ⟨bounded, loses⟩)
      have run := owned q listed
      obtain ⟨x, here⟩ := accounted q (after.holdsRun_iff.mpr (Or.inl run))
      exact done.nowhere run ((served.loose q).mpr (Or.inr listed)) x here
    · intro safe p holds
      have none : loose = [] := by
        by_contra some
        exact safe (lost.mp some).2
      have mooredNow : next.Moored := by
        intro q adrift
        rw [served.loose q, none] at adrift
        exact moored q (adrift.resolve_right (by simp))
      exact (done.whereabouts mooredNow holds).exists

/-- The calls whose runner is not used up by the refill. -/
def Unspilled (session : Session fam) : Operation fam → Prop
  | .allocate a thread env n => ¬ session.world.Spills fam a thread env n
  | @Operation.allocateAtLeast _ _ _ _ value a thread env n =>
      ¬ session.world.Spills fam a thread env (World.growthCount fam value n)
  | _ => True

/-- Such calls are careful. -/
theorem SessionOk.unspilled_iff (ok : SessionOk session ledger)
    {operation : Operation fam} (allowed : session.Allows operation) :
    Unspilled session operation ↔ Careful session operation := by
  unfold Careful Operation.LosesRun
  cases operation with
  | allocate a thread env n => exact not_congr (ok.world.losesRun_iff_spills allowed.2.2.1).symm
  | allocateAtLeast a thread env n =>
      exact not_congr (ok.world.losesRun_iff_spills allowed.2.2.1).symm
  | construct state heap os arguments => exact iff_of_true trivial id
  | deallocate item b thread m => exact iff_of_true trivial id
  | expand item b thread minNewBytes => exact iff_of_true trivial id
  | exit value thread => exact iff_of_true trivial id

/-- In sessions of such calls nothing is ever adrift. -/
theorem unspilled_inductive :
    (permittedSessions fam Unspilled).Inductive fun session =>
      ∃ ledger, SessionOk session ledger ∧ ledger.Moored where
  start := careful_inductive.start
  step session session' := by
    rintro ⟨ledger, ok, moored⟩ step
    refine careful_inductive.step session session' ⟨ledger, ok, moored⟩ ?_
    cases step with
    | call operation allowed unspilled =>
        exact .call operation allowed ((ok.unspilled_iff allowed).mp unspilled)
    | store addr value writable => exact .store addr value writable
    | elsewhere addr value unused => exact .elsewhere addr value unused

/-- In every session whose calls are not used up by the refill, all allocated runs are
accounted for; and an allocation through the cache, whatever the OS refuses, keeps it that
way when it throws, and hands out the run that it has obtained, just when it is such a call
as well. -/
theorem thrown_runs_accounted
    (reachable : (permittedSessions fam Unspilled).Reachable session) :
    (∀ site, session.Accounted site) ∧
    ∀ value (stateless : fam.stateless = true) thread env n,
      fam.sizeOf value = 1 → 2 ≤ n → n ≤ 4096 →
      session.Allows (.allocate (.defaultState stateless : Handle fam value)
        thread env n) →
      ((∀ w' exn, session.world.allocate fam
            (.defaultState stateless : Handle fam value) thread env n =
              (w', .error exn) →
          Session.Accounted { session with world := w' }
            (.thread value thread)) ↔
        ¬ session.world.Spills fam
          (.defaultState stateless : Handle fam value) thread env n) ∧
      ((∀ w' raw, session.world.Obtained fam
            (.defaultState stateless : Handle fam value) thread env n w' raw →
          (session.world.allocate fam
            (.defaultState stateless : Handle fam value) thread env n).2 = .ok raw) ↔
        ¬ session.world.Spills fam
          (.defaultState stateless : Handle fam value) thread env n) := by
  obtain ⟨ledger, ok, moored⟩ := unspilled_inductive.reachable reachable
  constructor
  · intro site p holds
    exact (ok.whereabouts moored holds).exists
  · intro value stateless thread env n byte several small allowed
    have bounded : n ≤ fam.maxSize value := by
      rw [Family.le_maxSize_iff, byte]
      omega
    rw [← ok.world.losesRun_iff_spills allowed.2.2.1]
    constructor
    · constructor
      · intro accounted lost
        obtain ⟨_, _, _, exn, _, _, _, _, thrown⟩ := lost.thrown bounded
        have result : session.world.allocate fam
            (.defaultState stateless : Handle fam value) thread env n =
              ((session.world.allocate fam
                (.defaultState stateless : Handle fam value) thread env n).1,
                .error exn) := Prod.ext rfl thrown
        exact (ok.thrown_accounted_iff moored allowed bounded result).mp
          (accounted _ _ result) lost
      · intro safe w' exn result
        exact (ok.thrown_accounted_iff moored allowed bounded result).mpr safe
    · have multiplied : checkedMul n (fam.sizeOf value) = some n := by
        rw [byte]
        exact checkedMul_eq_some.mpr ⟨by omega, (Nat.mul_one n).symm⟩
      constructor
      · intro given lost
        obtain ⟨bytes, w', raw, exn, multiplied', _, obtained, _, thrown⟩ :=
          lost.thrown bounded
        obtain rfl := Option.some.inj (multiplied.symm.trans multiplied')
        rw [given w' raw obtained] at thrown
        cases thrown
      · intro safe w' raw obtained
        refine obtained.handed_out several bounded multiplied ?_ safe
        have heapBacked : fam.heapBacked = true := by
          unfold Family.stateless at stateless
          simp only [Bool.and_eq_true] at stateless
          exact stateless.1
        simp [Handle.canUseTlsRunCache, heapBacked, byte, Handle.mode, tlsRunCutoff, small]

/-- A thread holds most of its first chunk. -/
def brimmedSession : Session dynamicFamily :=
  (sampleStart dynamicFamily).perform
    (.allocate dynamicHandle false sampleEnvironment 60000)

theorem brimmedSession_reachable :
    (permittedSessions dynamicFamily Careful).Reachable brimmedSession := by
  refine .step (.start ⟨_, rfl⟩) (.call _
    (sampleStart_permits rfl false false (by decide)) ?_)
  rintro ⟨_, bytes, _, multiplied, cached, _⟩
  obtain rfl : 60000 = bytes := Option.some.inj multiplied
  cases cached

theorem brimmedSession_allows :
    brimmedSession.Allows
      (.allocate dynamicHandle false refusingEnvironment 4096) := by
  refine dynamicHandle_allows _ ?_ (by decide)
  rw [brimmedSession]
  exact Session.alive_perform_allocate rfl

theorem brimmedSession_loses :
    brimmedSession.world.LosesRun dynamicFamily dynamicHandle false
      refusingEnvironment 4096 ∧
      (brimmedSession.world.allocate dynamicFamily dynamicHandle false
        refusingEnvironment 4096).2 = .error .refused :=
  ⟨⟨by decide, 4096, (brimmedSession.world.runsPtr dynamicFamily dynamicHandle
    false false).1, rfl, rfl, eq_of_snd (by decide +kernel), by decide +kernel, rfl,
    125568, _, by decide, eq_of_snd (by decide +kernel), .refused, by decide +kernel⟩,
    by decide +kernel⟩

/-- The request has its run, the refill throws, and the run is nowhere. -/
theorem brimmedSession_orphans :
    (sessions dynamicFamily).Reachable brimmedSession ∧
      brimmedSession.Allows
        (.allocate dynamicHandle false refusingEnvironment 4096) ∧
      ∃ w', brimmedSession.world.allocate dynamicFamily dynamicHandle false
          refusingEnvironment 4096 = (w', .error .refused) ∧
        ¬ Session.Accounted { brimmedSession with world := w' }
          (.thread false false) := by
  obtain ⟨ledger, ok, moored⟩ :=
    careful_inductive.reachable brimmedSession_reachable
  obtain ⟨lost, refused⟩ := brimmedSession_loses
  have result := eq_of_snd refused
  refine ⟨permitted_reachable brimmedSession_reachable, brimmedSession_allows,
    _, result, fun accounted => ?_⟩
  exact (ok.thrown_accounted_iff moored brimmedSession_allows
    (Family.le_maxSize_iff.mpr (by decide)) result).mp accounted lost

/-- The thread's first chunk has little room left. -/
def filledSession : Session dynamicFamily :=
  (sampleStart dynamicFamily).perform
    (.allocate dynamicHandle false sampleEnvironment 61408)

/-- A small run has been allocated from it, and three more wait in the cache. -/
def crowdedSession : Session dynamicFamily :=
  filledSession.perform (.allocate dynamicHandle false refusingEnvironment 16)

theorem filledSession_alive (value thread : Bool) :
    filledSession.exited value thread = false := by
  rw [filledSession]
  exact Session.alive_perform_allocate rfl

theorem crowdedSession_alive (value thread : Bool) :
    crowdedSession.exited value thread = false := by
  rw [crowdedSession]
  exact Session.alive_perform_allocate (filledSession_alive value thread)

theorem crowdedSession_refused :
    (filledSession.world.allocate dynamicFamily dynamicHandle false refusingEnvironment
        16).2 = .ok 126976 ∧
      (crowdedSession.world.classes false false 0).count = 3 ∧
      ((crowdedSession.world.runsPtr dynamicFamily dynamicHandle false
        refusingEnvironment.room).1.obtain dynamicFamily false false
        (dynamicHandle.siteOn false) refusingEnvironment.os
        (tlsClassIndexFor 4096)).2.toOption = none ∧
      (crowdedSession.world.allocate dynamicFamily dynamicHandle false refusingEnvironment
        4096).2.toOption = none := by
  decide +kernel

theorem crowdedSession_unspilled :
    (permittedSessions dynamicFamily Unspilled).Reachable crowdedSession := by
  have before : (permittedSessions dynamicFamily Unspilled).Reachable filledSession := by
    refine .step (.start ⟨_, rfl⟩) (.call _
      (sampleStart_permits rfl false false (by decide)) fun spills => ?_)
    have cutoff := (dynamicHandle.canUse_spec spills.cached false).2
    exact absurd cutoff (by decide)
  have allowed := dynamicHandle_allows filledSession
    (filledSession_alive false false) (show 16 < 2 ^ 64 by decide)
  refine .step before (.call _ allowed ?_)
  obtain ⟨ledger, ok, _⟩ := unspilled_inductive.reachable before
  refine (ok.unspilled_iff allowed).mpr fun lost => ?_
  obtain ⟨_, _, _, exn, _, _, _, _, thrown⟩ :=
    World.LosesRun.thrown lost (Family.le_maxSize_iff.mpr (by decide))
  have served := crowdedSession_refused.1
  rw [thrown] at served
  cases served

/-- A request that the runner does not serve throws, and loses no run. -/
theorem crowdedSession_accounted :
    (crowdedSession.world.classes false false 0).count = 3 ∧
      ∃ w' exn, crowdedSession.world.allocate dynamicFamily dynamicHandle false
          refusingEnvironment 4096 = (w', .error exn) ∧
        Session.Accounted { crowdedSession with world := w' } (.thread false false) := by
  obtain ⟨_, stocked, refused, thrown⟩ := crowdedSession_refused
  have allowed := dynamicHandle_allows crowdedSession
    (crowdedSession_alive false false) (show 4096 < 2 ^ 64 by decide)
  have unspilled : ¬ crowdedSession.world.Spills dynamicFamily dynamicHandle false
      refusingEnvironment 4096 := by
    obtain ⟨ledger, ok, _⟩ := unspilled_inductive.reachable crowdedSession_unspilled
    refine (ok.unspilled_iff allowed).mpr ?_
    rintro ⟨_, bytes, w₁, multiplied, _, resolved, _, _, raw, w', _, obtained, _⟩
    obtain rfl : 4096 = bytes := Option.some.inj multiplied
    obtain rfl : _ = w₁ := congrArg Prod.fst resolved
    rw [obtained] at refused
    cases refused
  have accounted := ((thrown_runs_accounted crowdedSession_unspilled).2 false rfl false
    refusingEnvironment 4096 rfl (by decide) (by decide) allowed).1.mpr unspilled
  cases result : crowdedSession.world.allocate dynamicFamily dynamicHandle false
      refusingEnvironment 4096 with
  | mk w' outcome =>
    rw [result] at thrown
    cases outcome with
    | error exn => exact ⟨stocked, w', exn, rfl, accounted w' exn result⟩
    | ok p => cases thrown

end Suballocated

end Allocazam
