import Allocazam.SuballocatedGrowth
import Allocazam.SuballocatedRefill

/-!
# Conservation of runs

When the OS refuses nothing, no refill fails: every run is accounted for
throughout, and the cache of a thread that exits returns each of its entries to
the owner it is stamped with.
-/

namespace Allocazam

namespace Suballocated

variable {Value Thread Bound : Type} [DecidableEq Value] [DecidableEq Thread]
  [DecidableEq Bound] {fam : Family Value Thread Bound}
  {w : World Value Thread Bound} {live : List (Item fam)}
  {ledger : Ledger Value Thread Bound} {session : Session fam} {value : Value}
  {thread : Thread} {a : Handle fam value} {env : Environment} {n : Nat}

/-- A request for several values is refused no chunk, and its chunks end below the
middle of the address space. -/
def World.Supplied (fam : Family Value Thread Bound)
    (w : World Value Thread Bound) (a : Handle fam value) (thread : Thread)
    (env : Environment) (n : Nat) : Prop :=
  (∀ i, (env.os i).LowHalf) ∧
    (2 ≤ n → (w.runsPtr fam a thread env.room).2 = .ok (a.siteOn thread) →
      (w.allocate fam a thread env n).2 ≠ .error .refused)

/-- The calls that are refused no chunk. -/
def Supplied (session : Session fam) : Operation fam → Prop
  | .allocate a thread env n => session.world.Supplied fam a thread env n
  | @Operation.allocateAtLeast _ _ _ _ value a thread env n =>
      session.world.Supplied fam a thread env (World.growthCount fam value n)
  | _ => True

theorem World.Supplied.safe (supplied : w.Supplied fam a thread env n)
    (growing : fam.mode = MemoryMode.dynamic → w.Growing fam)
    (made : ∀ w₁, w.runsPtr fam a thread env.room = (w₁, .ok (a.siteOn thread)) →
      w₁.created (a.siteOn thread) = true) :
    ¬ w.LosesRun fam a thread env n := by
  intro lost
  have several := lost.1
  have dynamic : fam.mode = MemoryMode.dynamic := by
    obtain ⟨_, _, _, _, _, _, _, dynamic, _⟩ := lost
    exact dynamic
  have bounded : n ≤ fam.maxSize value := by
    obtain ⟨_, _, _, multiplied, _⟩ := lost
    rw [Family.le_maxSize_iff]
    exact (checkedMul_eq_some.mp multiplied).1
  obtain ⟨low, served⟩ := supplied
  obtain ⟨bytes, w₂, raw, exn, multiplied, cached, ⟨_, w₁, resolved, _, obtained⟩, failed,
    thrown⟩ := lost.thrown bounded
  obtain ⟨own, cutoff⟩ := a.canUse_spec cached thread
  have positive : 0 < bytes := by
    rw [(checkedMul_eq_some.mp multiplied).2]
    exact Nat.mul_pos (by omega) (fam.sizePositive value)
  obtain ⟨inClasses, _⟩ := tlsClass_spec positive cutoff
  have first : w₁.Growing fam := by
    have resolves : (w.runsPtr fam a thread env.room).1.Growing fam :=
      (growingRule dynamic).runsPtr (growing dynamic)
    rw [resolved] at resolves
    exact resolves
  have second : w₂.Growing fam := by
    have obtains : (w₁.obtain fam value thread (a.siteOn thread) env.os
        (tlsClassIndexFor bytes)).1.Growing fam :=
      (growingRule dynamic).obtain first low
    rw [obtained] at obtains
    exact obtains
  have created : w₂.created (a.siteOn thread) = true := by
    have confined : Confined fam (a.siteOn thread) w₁
        (w₁.obtain fam value thread (a.siteOn thread) env.os
          (tlsClassIndexFor bytes)).1 := World.obtain_confined
    rw [obtained] at confined
    rw [confined.created]
    exact made w₁ resolved
  rw [own] at created failed
  obtain rfl := second.refill_refused created low inClasses _ failed
  exact served several (by rw [resolved]) thrown

/-- Supplied calls run under systems whose memory ends below the middle of the
address space. -/
theorem Supplied.permitted {operation : Operation fam}
    (supplied : Supplied session operation) :
    operation.Permitted Runner.Os.LowHalf := by
  cases operation with
  | allocate a thread env n => exact supplied.1
  | allocateAtLeast a thread env n => exact supplied.1
  | construct state heap os arguments => exact trivial
  | deallocate item b thread m => exact trivial
  | expand item b thread minNewBytes => exact trivial
  | exit value thread => exact trivial

theorem SessionOk.careful (ok : SessionOk session ledger)
    {operation : Operation fam} (allowed : session.Allows operation)
    (supplied : Supplied session operation)
    (growing : fam.mode = MemoryMode.dynamic → session.world.Growing fam) :
    Careful session operation := by
  have made : ∀ {value : Value} {a : Handle fam value} {thread : Thread}
      {env : Environment}, a.Usable session.world → ∀ w₁,
        session.world.runsPtr fam a thread env.room =
          (w₁, .ok (a.siteOn thread)) → w₁.created (a.siteOn thread) = true := by
    intro value a thread env usable w₁ resolved
    obtain ⟨⟨_, _, made⟩, _⟩ := ok.world.runsPtr thread env.room usable
    rw [resolved] at made
    exact made ⟨_, rfl⟩
  unfold Careful Operation.LosesRun
  cases operation with
  | allocate a thread env n =>
      exact supplied.safe growing (made allowed.2.1)
  | allocateAtLeast a thread env n =>
      exact supplied.safe growing (made allowed.2.1)
  | construct state heap os arguments => exact id
  | deallocate item b thread m => exact id
  | expand item b thread minNewBytes => exact id
  | exit value thread => exact id

/-- The invariant of sessions in which the OS refuses nothing. -/
theorem supplied_inductive :
    (permittedSessions fam Supplied).Inductive fun session =>
      (∃ ledger, SessionOk session ledger ∧ ledger.Moored) ∧
        (fam.mode = MemoryMode.dynamic → session.world.Growing fam) where
  start session starts := by
    refine ⟨careful_inductive.start session starts, fun _ => ?_⟩
    obtain ⟨mem, rfl⟩ := starts
    intro value thread made
    cases made
  step session session' := by
    rintro ⟨⟨ledger, ok, moored⟩, growing⟩ step
    cases step with
    | call operation allowed supplied =>
        obtain ⟨next, after, settled⟩ := ok.call allowed
        have careful := ok.careful allowed supplied growing
        exact ⟨⟨next, after, fun p adrift =>
          moored p (settled careful p adrift)⟩,
            fun dynamic =>
              (growingRule dynamic).perform (growing dynamic) supplied.permitted⟩
    | store addr value writable =>
        exact ⟨⟨ledger, ok.store value writable, moored⟩,
          fun dynamic => World.Throughout.of_states (growing dynamic) rfl rfl⟩
    | elsewhere addr value unused =>
        exact ⟨⟨ledger, ok.elsewhere value unused, moored⟩,
          fun dynamic => World.Throughout.of_states (growing dynamic) rfl rfl⟩

namespace SessionOk

variable (ok : SessionOk session ledger)

include ok

omit [DecidableEq Value] [DecidableEq Thread] [DecidableEq Bound] in
/-- The entries of a class list are large enough for the class and stamped with
the runner that they belong to. -/
theorem class_entries (value : Value) (thread : Thread) (idx : Nat) :
    ∃ entries, IsStack session.world.mem
        (session.world.classes value thread idx).head entries ∧
      (session.world.classes value thread idx).count = entries.length ∧
      ∀ p ∈ entries, ∃ owner,
        session.world.HoldsRun (.thread value owner) p ∧
          p ∈ session.world.territory fam (.runs (.thread value owner)) ∧
          (idx + 1) * 16 ≤ session.world.payloadBytes p ∧
          session.world.mem (p + 8) = fam.runsAt (.thread value owner) := by
  obtain ⟨entries, cls⟩ := ok.world.classes value thread idx
  refine ⟨entries, cls.chain, cls.count, fun p listed => ?_⟩
  obtain ⟨owner, allocation, member, rfl, enough, stamp, _⟩ := cls.owned listed
  have holds := ok.world.holdsRun_iff.mpr (Or.inl ⟨allocation, member, rfl⟩)
  exact ⟨owner, holds, ok.world.holdsRun_territory holds,
    ok.world.payload_covers member enough, stamp⟩

/-- A thread that exits returns each entry of its cache to the owner it is stamped
with, and leaves its class lists empty. -/
theorem exit_returns (value : Value) (thread : Thread) :
    ∃ entries : Nat → List Nat,
      (∀ idx < tlsRunClassCount, IsStack session.world.mem
        (session.world.classes value thread idx).head (entries idx)) ∧
      ((List.range tlsRunClassCount).flatMap entries).Nodup ∧
      session.world.destroyCache fam value thread =
        World.clearClasses value thread (List.range tlsRunClassCount)
          (World.returnEach fam value thread (fun p => session.world.mem (p + 8))
            ((List.range tlsRunClassCount).flatMap entries) session.world) := by
  choose entries cls using ok.world.classes value thread
  refine ⟨entries, fun idx _ => (cls idx).chain, ?_,
    ok.world.destroyCache_eq fun idx _ => cls idx⟩
  rw [List.nodup_flatMap]
  refine ⟨fun idx _ => (cls idx).chain.nodup, ?_⟩
  apply List.nodup_range.imp
  intro idx idx' distinct q listed again
  have here := ((cls idx).place q).mp listed
  rw [((cls idx').place q).mp again] at here
  cases here
  exact distinct rfl

end SessionOk

omit [DecidableEq Bound] in
theorem World.clearClasses_classes {idx : Nat} (indices : List Nat)
    (listed : idx ∈ indices) (w : World Value Thread Bound) :
    (World.clearClasses value thread indices w).classes value thread idx =
      ⟨0, 0⟩ := by
  induction indices using List.reverseRecOn with
  | nil => cases listed
  | append_singleton indices last ih =>
      unfold World.clearClasses
      rw [List.foldl_append, List.foldl_cons, List.foldl_nil]
      by_cases here : idx = last
      · subst here
        exact World.setClass_self _
      · rw [World.setClass_of_ne _ fun same => here same.2.2]
        exact ih (by simpa [here] using listed)

theorem WorldOk.allocate_run (ok : WorldOk fam w live ledger)
    (stateless : fam.stateless = true) {w' : World Value Thread Bound} {p : Nat}
    (usable : (Handle.defaultState stateless : Handle fam value).Usable w)
    (avoids : env.Avoids (w.inUse fam)) (several : 2 ≤ n)
    (result : w.allocate fam (.defaultState stateless : Handle fam value) thread
      env n = (w', .ok p)) :
    w'.HoldsRun (.thread value thread) p ∧
      p ∈ w'.territory fam (.runs (.thread value thread)) ∧
      n * fam.sizeOf value ≤ w'.payloadBytes p := by
  have outcome : AllocateOutcome fam live ledger
      (.defaultState stateless : Handle fam value) thread n
      (n ≤ fam.maxSize value ∧ w.LosesRun fam
        (.defaultState stateless : Handle fam value) thread env n)
      (w.allocate fam (.defaultState stateless : Handle fam value) thread env
        n) := ok.allocate usable avoids
  rw [result] at outcome
  cases outcome with
  | null none => omega
  | node one => omega
  | run _ _ _ _ after _ run =>
      obtain ⟨allocation, member, rfl, enough⟩ := run
      have holds := after.holdsRun_iff.mpr (Or.inl ⟨allocation, member, rfl⟩)
      exact ⟨holds, after.holdsRun_territory holds,
        after.payload_covers member enough⟩

theorem World.allocateAtLeast_ok {w' : World Value Thread Bound} {p count : Nat}
    (some : n ≠ 0)
    (result : w.allocateAtLeast fam a thread env n = (w', .ok (p, count))) :
    World.growthCount fam value n = count ∧
      w.allocate fam a thread env count = (w', .ok p) := by
  unfold World.allocateAtLeast at result
  rw [if_neg some] at result
  dsimp only at result
  cases allocated : w.allocate fam a thread env (World.growthCount fam value n) with
  | mk w₁ outcome =>
    rw [allocated] at result
    cases outcome with
    | error exn => cases result
    | ok q =>
        cases result
        exact ⟨rfl, allocated⟩

/-- While the OS refuses nothing, every run marked allocated is in exactly one
place; class lists hold runs that are large enough and stamped with the runner they
belong to; what is allocated belongs to the runner of the calling thread and is
large enough; and a thread that exits returns every entry of its cache once. -/
theorem runs_conserved
    (reachable : (permittedSessions fam Supplied).Reachable session) :
    (∀ value owner p, session.world.HoldsRun (.thread value owner) p →
      ∃! x, session.At (.thread value owner) p x) ∧
    (∀ value thread idx, ∃ entries, IsStack session.world.mem
        (session.world.classes value thread idx).head entries ∧
      (session.world.classes value thread idx).count = entries.length ∧
      ∀ p ∈ entries, ∃ owner,
        session.world.HoldsRun (.thread value owner) p ∧
          p ∈ session.world.territory fam (.runs (.thread value owner)) ∧
          (idx + 1) * 16 ≤ session.world.payloadBytes p ∧
          session.world.mem (p + 8) = fam.runsAt (.thread value owner)) ∧
    (∀ {value : Value} (stateless : fam.stateless = true) thread env n w' p,
      2 ≤ n →
      (session.Allows (.allocate
          (.defaultState stateless : Handle fam value) thread env n) →
        session.world.allocate fam
          (.defaultState stateless : Handle fam value) thread env n =
            (w', .ok p) →
        w'.HoldsRun (.thread value thread) p ∧
          p ∈ w'.territory fam (.runs (.thread value thread)) ∧
          n * fam.sizeOf value ≤ w'.payloadBytes p) ∧
      (∀ count, session.Allows (.allocateAtLeast
          (.defaultState stateless : Handle fam value) thread env n) →
        session.world.allocateAtLeast fam
          (.defaultState stateless : Handle fam value) thread env n =
            (w', .ok (p, count)) →
        n ≤ count ∧ w'.HoldsRun (.thread value thread) p ∧
          p ∈ w'.territory fam (.runs (.thread value thread)) ∧
          count * fam.sizeOf value ≤ w'.payloadBytes p)) ∧
    (∀ value thread, session.Allows (.exit value thread) →
      (∀ idx < tlsRunClassCount,
        (session.perform (.exit value thread)).world.classes value thread idx =
          ⟨0, 0⟩) ∧
      ∃ entries : Nat → List Nat,
        (∀ idx < tlsRunClassCount, IsStack session.world.mem
          (session.world.classes value thread idx).head (entries idx)) ∧
        ((List.range tlsRunClassCount).flatMap entries).Nodup ∧
        (session.perform (.exit value thread)).world =
          World.clearClasses value thread (List.range tlsRunClassCount)
            (World.returnEach fam value thread
              (fun p => session.world.mem (p + 8))
              ((List.range tlsRunClassCount).flatMap entries) session.world)) := by
  obtain ⟨⟨ledger, ok, moored⟩, growing⟩ := supplied_inductive.reachable reachable
  refine ⟨fun value owner p holds => ok.whereabouts moored holds,
    ok.class_entries, ?_, ?_⟩
  · intro value stateless thread env n w' p several
    constructor
    · rintro ⟨_, usable, avoids, _⟩ result
      exact ok.world.allocate_run stateless usable avoids several result
    · rintro count ⟨_, usable, avoids, bounded⟩ result
      obtain ⟨enough, _, _⟩ := Family.growthCount_spec bounded
      obtain ⟨rfl, allocated⟩ :=
        World.allocateAtLeast_ok (by omega : n ≠ 0) result
      exact ⟨enough, ok.world.allocate_run stateless usable avoids (by omega)
        allocated⟩
  · intro value thread allowed
    obtain ⟨entries, chains, nodup, returned⟩ := ok.exit_returns value thread
    have destroyed : (session.perform (.exit value thread)).world =
        session.world.destroyCache fam value thread := by
      rw [Session.perform_exit]
    obtain ⟨next, after, _⟩ := ok.call allowed
    refine ⟨fun idx bounded => ?_, entries, chains, nodup,
      destroyed.trans returned⟩
    rw [destroyed, returned]
    exact World.clearClasses_classes _ (List.mem_range.mpr bounded) _

theorem sampleEnvironment_lowHalf (i : Nat) :
    (sampleEnvironment.os i).LowHalf := by
  intro chunks bytes base granted
  unfold sampleEnvironment grantingFrom Runner.offered at granted
  dsimp only at granted
  split at granted
  · rename_i fits
    obtain rfl := Option.some.inj granted
    have small := fits.1
    omega
  · cases granted

theorem refusingEnvironment_lowHalf (i : Nat) : (refusingEnvironment.os i).LowHalf := by
  intro chunks bytes base granted
  cases granted

/-- The other thread has freed a run of `pairedSession` to its cache. -/
def tradedSession : Session dynamicFamily :=
  pairedSession.perform (.deallocate (dynamicItem 65696) dynamicHandle true 16)

theorem tradedSession_supplied :
    (permittedSessions dynamicFamily Supplied).Reachable tradedSession := by
  obtain ⟨_, first, second⟩ := stockedSession_served
  have stocked : (permittedSessions dynamicFamily Supplied).Reachable stockedSession := by
    refine .step (.start ⟨_, rfl⟩) (.call _ (sampleStart_permits rfl false false (by decide))
      ⟨sampleEnvironment_lowHalf, fun _ _ refused => ?_⟩)
    cases first.symm.trans refused
  have paired : (permittedSessions dynamicFamily Supplied).Reachable pairedSession := by
    refine .step stocked (.call _ (dynamicHandle_allows stockedSession
      (stockedSession_alive false false) (by decide))
        ⟨refusingEnvironment_lowHalf, fun _ _ refused => ?_⟩)
    cases second.symm.trans refused
  exact .step paired (.call _ pairedSession_frees trivial)

theorem tradedSession_cached :
    (tradedSession.world.classes false false 0).count = 2 ∧
      (tradedSession.world.classes false true 0).count = 1 ∧
      (tradedSession.world.runs (.thread false false)).Allocated 65680 48 := by
  unfold Runner.State.Allocated
  decide +kernel

/-- The run is in exactly one place, and the other thread's exit empties the cache that it
is in. -/
theorem tradedSession_conserved :
    (∃! x, tradedSession.At (.thread false false) 65696 x) ∧
      (tradedSession.perform (.exit false true)).world.classes false true 0 = ⟨0, 0⟩ := by
  obtain ⟨places, _, _, exits⟩ := runs_conserved tradedSession_supplied
  obtain ⟨_, _, allocated⟩ := tradedSession_cached
  have alive : tradedSession.exited false true = false :=
    Session.alive_perform_deallocate (pairedSession_alive false true)
  exact ⟨places false false 65696 ⟨65680, 48, allocated, rfl⟩,
    (exits false true alive).1 0 (by decide)⟩

end Suballocated

end Allocazam
