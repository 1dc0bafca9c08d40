import Allocazam.RunnerStarted
import Allocazam.SuballocatedClassLists
import Allocazam.SuballocatedRefill
import Allocazam.SuballocatedReturns
import Allocazam.SuballocatedRunners

/-!
# Exhaustion of a fixed allocator

A request for several bytes that goes through the run cache fails only when it has
no room even with the parked and the cached runs of the thread's runner counted as
free.  A larger request does not return the cached runs first.
-/

namespace Allocazam

namespace Suballocated

variable {Value Thread Bound : Type} {fam : Family Value Thread Bound}
  {w : World Value Thread Bound} {live : List (Item fam)}
  {ledger : Ledger Value Thread Bound} {session : Session fam} {value : Value}
  {thread : Thread} {env : Environment} {n bytes : Nat}

/-- The runs parked on the remote stack of the thread's runner. -/
def World.parkedRuns (w : World Value Thread Bound) (value : Value)
    (thread : Thread) : Set Nat :=
  {p | w.Parked (.thread value thread) p}

/-- The runs of the thread's runner in the thread's own run cache. -/
def World.ownCachedRuns (fam : Family Value Thread Bound)
    (w : World Value Thread Bound) (value : Value) (thread : Thread) : Set Nat :=
  {p | ∃ idx, w.Cached value thread idx p ∧
    w.mem (p + 8) = fam.runsAt (.thread value thread)}

theorem startedRule :
    RunnerRule fam (fun _ => True) fun _ => Runner.Started where
  quiet chunks sizing started := started.congr chunks sizing
  allocates bytes alignment _ started :=
    Runner.allocateBytes_started started bytes alignment
  lazy _ _ _ _ := Or.inr rfl

variable [DecidableEq Value] [DecidableEq Thread] [DecidableEq Bound]

/-- No runner of a thread has a chunk and a deferred one. -/
theorem started_inductive :
    (sessions fam).Inductive fun session =>
      (∃ ledger, SessionOk session ledger) ∧
        session.world.Throughout fam fun _ => Runner.Started where
  start session starts := by
    refine ⟨sessions_inductive.start session starts, ?_⟩
    obtain ⟨mem, rfl⟩ := starts
    intro value thread made
    cases made
  step session session' := by
    rintro ⟨ok, started⟩ step
    refine ⟨sessions_inductive.step session session' ok step, ?_⟩
    cases step with
    | call operation allowed =>
        apply startedRule.perform started
        cases operation <;> simp [Operation.Permitted]
    | store addr value writable => exact started.of_states rfl rfl
    | elsewhere addr value unused => exact started.of_states rfl rfl

section Cached

variable (ok : WorldOk fam w live ledger)
  (classes : ∀ p idx, ledger.place p = some (.cached value thread idx) →
    idx < tlsRunClassCount)

include ok classes

/-- Once a first attempt has failed and the cache has been drained, there is room
if there was room with the parked and the cached runs counted as free. -/
theorem WorldOk.drained_room {w' : World Value Thread Bound}
    (emptied : WorldOk fam w' live ledger)
    (shrinks : (w.runs (.thread value thread)).Shrinks
      (w'.runs (.thread value thread)))
    (unparked : ∀ addr size, (w'.runs (.thread value thread)).Allocated addr size →
      ¬ w.Parked (.thread value thread) (addr + 16))
    (room : (w.runs (.thread value thread)).HasRoom
      (w.parkedRuns value thread ∪ w.ownCachedRuns fam value thread) bytes) :
    ((w'.tlsDrainAll fam value thread).runs (.thread value thread)).HasRoom
      ((w'.tlsDrainAll fam value thread).parkedRuns value thread) bytes := by
  obtain ⟨gone, next, returned, drained, cached⟩ :=
    emptied.tlsDrainAll value thread
  have rest := emptied.tlsDrainAll_shrinks value thread (.thread value thread)
  have both := shrinks.trans rest
  refine room.transfer both.chunks fun addr size marked kept =>
    ⟨both.allocated addr size marked, ?_⟩
  have before := rest.allocated addr size marked
  rintro (isParked | ⟨idx, isCached, _⟩)
  · exact unparked addr size before isParked
  · have here := ok.cached_iff.mp isCached
    have left : addr + 16 ∈ gone := (cached _).mpr ⟨idx, classes _ idx here, here⟩
    have out := (drained.holdsRun_iff.mp ⟨addr, size, marked, rfl⟩).resolve_right
      kept
    obtain ⟨allocation, member, payload⟩ := out
    have notGone := ((returned.runs _ _).mp member).2
    rw [payload] at notGone
    exact notGone left

end Cached

omit [DecidableEq Value] [DecidableEq Thread] [DecidableEq Bound] in
theorem World.parkedRuns_eq {parked : List Nat}
    (stack : IsStack w.mem (w.states (.thread value thread)).runs.remoteHead
      parked) : w.parkedRuns value thread = {p | p ∈ parked} :=
  Set.ext fun _ => World.parked_iff stack

section Fixed

variable (ok : WorldOk fam w live ledger)
  (classes : ∀ p idx, ledger.place p = some (.cached value thread idx) →
    idx < tlsRunClassCount)
  (fixed : fam.mode = MemoryMode.fixed)
  (started : Runner.Started (w.states (.thread value thread)).runs)
  (created : w.created (.thread value thread) = true)
  (small : fam.alignOf value ≤ 16)

include ok

omit [DecidableEq Value] [DecidableEq Thread] [DecidableEq Bound] in
theorem WorldOk.runnerOk (site : Site Value Thread Bound) : ∃ runs parked,
    Runner.RunnerOk (fam.runsConfig site) (w.runs site) runs parked := by
  obtain ⟨runs, parked, runner, _⟩ := ok.runsOk site
  exact ⟨runs, parked, runner⟩

omit [DecidableEq Value] [DecidableEq Thread] [DecidableEq Bound] in
theorem WorldOk.created_of_room {spared : Set Nat}
    (room : (w.runs (.thread value thread)).HasRoom spared bytes) :
    w.created (.thread value thread) = true := by
  by_contra missing
  have none := (ok.unborn (.thread value thread) (by simpa using missing)).chunks
  obtain ⟨chunk, member, _⟩ := room
  have listed : chunk ∈ (w.states (.thread value thread)).runs.chunks := member
  rw [none] at listed
  cases listed

include fixed started small

theorem WorldOk.allocateBytes_serves (os : Runner.Os)
    (chunked : (w.runs (.thread value thread)).chunks ≠ [])
    (word : bytes < 2 ^ 64) (positive : 0 < bytes) :
    (w.allocateBytes fam (.thread value thread) os bytes
        (fam.alignOf value)).2 ≠ .ok 0 ↔
      (w.runs (.thread value thread)).HasRoom (w.parkedRuns value thread)
        bytes := by
  obtain ⟨runs, parked, runner⟩ := ok.runnerOk (.thread value thread)
  rw [World.parkedRuns_eq runner.stack]
  have cannotGrow : (fam.runsConfig (.thread value thread)).canGrow = false := by
    simp [Family.runsConfig, fixed]
  exact runner.fixed_serves cannotGrow started chunked word positive small

include classes created

/-- A request for the cache that has room with the parked and the cached runs
counted as free is served at once or after the drain. -/
theorem WorldOk.obtain_served {os : Nat → Runner.Os} {idx : Nat}
    (avoids : ∀ i, (os i).Avoids (w.others fam (.runs (.thread value thread))))
    (bounded : idx < tlsRunClassCount)
    (room : (w.runs (.thread value thread)).HasRoom
      (w.parkedRuns value thread ∪ w.ownCachedRuns fam value thread)
        (tlsClassBytes idx)) :
    ∃ p ≠ 0, (w.obtain fam value thread (.thread value thread) os idx).2 =
      .ok p := by
  obtain ⟨runs, parked, runner⟩ := ok.runnerOk (.thread value thread)
  have word := tlsClassBytes_lt bounded
  have positive : 0 < tlsClassBytes idx := by
    unfold tlsClassBytes tlsRunQuantum
    omega
  have cannotGrow : (fam.runsConfig (.thread value thread)).canGrow = false := by
    simp [Family.runsConfig, fixed]
  have chunked : (w.runs (.thread value thread)).chunks ≠ [] := by
    obtain ⟨chunk, member, _⟩ := room
    exact List.ne_nil_of_mem member
  obtain ⟨_, q, result⟩ := Runner.allocateBytes_fixed
    (s := w.runs (.thread value thread)) (os 0) cannotGrow
    (started.resolve_right chunked) (tlsClassBytes idx) (fam.alignOf value)
  have outcome : (w.allocateBytes fam (.thread value thread) (os 0)
      (tlsClassBytes idx) (fam.alignOf value)).2 = .ok q := result
  obtain ⟨after, _⟩ := ok.allocateBytes (fam.alignOf value) created (avoids 0) word
  have runsAfter : (w.allocateBytes fam (.thread value thread) (os 0)
      (tlsClassBytes idx) (fam.alignOf value)).1.runs (.thread value thread) =
      ((w.runs (.thread value thread)).allocateBytes
        (fam.runsConfig (.thread value thread)) (os 0) (tlsClassBytes idx)
          (fam.alignOf value)).1 := World.setRuns_runs _
  unfold World.obtain
  generalize w.allocateBytes fam (.thread value thread) (os 0) (tlsClassBytes idx)
    (fam.alignOf value) = first at outcome after runsAfter ⊢
  obtain ⟨w', _⟩ := first
  obtain rfl := outcome
  dsimp only at after runsAfter ⊢
  by_cases null : q = 0
  swap
  · rw [if_neg null]
    exact ⟨q, null, rfl⟩
  subst null
  rw [if_pos rfl]
  -- The first attempt has drained the remote stack, the drain returns the cache.
  have emptied := Runner.allocateBytes_null runner positive (by
    have count : tlsRunClassCount = 256 := by decide
    unfold tlsClassBytes tlsRunQuantum
    omega) small result
  have shrinks := runner.shrinks emptied Runner.withoutPayloads_subset
  have cleared := emptied.ok
  rw [← runsAfter] at shrinks cleared
  have roomLeft := ok.drained_room classes after shrinks
    (fun addr size marked isParked => by
      have left := (cleared.allocated_iff.mp marked).2
      exact left ((World.parked_iff runner.stack).mp isParked)) room
  obtain ⟨_, _, _, drained, _⟩ := after.tlsDrainAll value thread
  generalize w'.tlsDrainAll fam value thread = u at roomLeft drained ⊢
  obtain ⟨runs', parked', runner'⟩ := drained.runnerOk (.thread value thread)
  rw [World.parkedRuns_eq runner'.stack] at roomLeft
  exact Runner.allocateBytes_served runner' word positive small roomLeft

end Fixed

theorem World.runsPtr_created (stateless : fam.stateless = true)
    (created : w.created (.thread value thread) = true) (room : Bool) :
    w.runsPtr fam (.defaultState stateless : Handle fam value) thread room =
      (w, .ok (.thread value thread)) := by
  unfold World.runsPtr World.threadState
  exact if_pos created

theorem World.allocate_bytes (stateless : fam.stateless = true)
    (single : fam.sizeOf value = 1) (several : 2 ≤ n)
    (bounded : n ≤ fam.maxSize value) :
    w.allocate fam (.defaultState stateless : Handle fam value) thread env n =
      if n ≤ tlsRunCutoff then
        match w.allocateFromTlsRunCache fam
          (.defaultState stateless : Handle fam value) thread env n with
        | (w, .error exn) => (w, .error exn)
        | (w, .ok p) => w.allocateRest fam
            (.defaultState stateless : Handle fam value) thread env n p
      else w.allocateRest fam (.defaultState stateless : Handle fam value) thread
        env n 0 := by
  have heapBacked : fam.heapBacked = true := by
    unfold Family.stateless at stateless
    simp only [Bool.and_eq_true] at stateless
    exact stateless.1
  have cached : (.defaultState stateless : Handle fam value).canUseTlsRunCache n =
      decide (n ≤ tlsRunCutoff) := by
    unfold Handle.canUseTlsRunCache Handle.mode
    simp [heapBacked, single]
  have multiplied : checkedMul n (fam.sizeOf value) = some n := by
    have product := Family.le_maxSize_iff.mp bounded
    rw [single, Nat.mul_one] at product
    rw [single]
    exact checkedMul_eq_some.mpr ⟨by omega, (Nat.mul_one n).symm⟩
  unfold World.allocate
  rw [if_neg (by omega), if_neg (by omega), if_neg (by omega), multiplied]
  dsimp only
  rw [cached]
  exact if_congr decide_eq_true_iff rfl rfl

section Allocation

variable (env) (ok : WorldOk fam w live ledger)
  (classes : ∀ p idx, ledger.place p = some (.cached value thread idx) →
    idx < tlsRunClassCount)
  (fixed : fam.mode = MemoryMode.fixed)
  (started : Runner.Started (w.states (.thread value thread)).runs)
  (small : fam.alignOf value ≤ 16) (stateless : fam.stateless = true)
  (avoids : env.Avoids (w.inUse fam)) (single : fam.sizeOf value = 1)
  (several : 2 ≤ n) (bounded : n ≤ fam.maxSize value)

include ok fixed started small single several bounded

/-- A larger request goes to the runner at once. -/
theorem WorldOk.allocate_large (large : tlsRunCutoff < n)
    (chunked : (w.runs (.thread value thread)).chunks ≠ []) :
    (w.runs (.thread value thread)).HasRoom (w.parkedRuns value thread) n ∧
        (∃ p, (w.allocate fam (.defaultState stateless : Handle fam value) thread
          env n).2 = .ok p) ∨
      ¬ (w.runs (.thread value thread)).HasRoom (w.parkedRuns value thread) n ∧
        (w.allocate fam (.defaultState stateless : Handle fam value) thread env
          n).2 = .error .badAlloc := by
  have created : w.created (.thread value thread) = true := by
    by_contra missing
    exact chunked
      (ok.unborn (.thread value thread) (by simpa using missing)).chunks
  have word : n < 2 ^ 64 := by
    have product := Family.le_maxSize_iff.mp bounded
    rw [single, Nat.mul_one] at product
    exact product
  have serves := ok.allocateBytes_serves fixed started small (env.os 5) chunked
    word (by omega)
  have cannotGrow : (fam.runsConfig (.thread value thread)).canGrow = false := by
    simp [Family.runsConfig, fixed]
  obtain ⟨_, q, result⟩ := Runner.allocateBytes_fixed
    (s := w.runs (.thread value thread)) (env.os 5) cannotGrow
    (started.resolve_right chunked) n (fam.alignOf value)
  have outcome : (w.allocateBytes fam (.thread value thread) (env.os 5) n
      (fam.alignOf value)).2 = .ok q := result
  rw [World.allocate_bytes stateless single several bounded,
    if_neg (Nat.not_le.mpr large)]
  unfold World.allocateRest World.allocateRun
  rw [if_neg (by simp), World.runsPtr_created stateless created]
  dsimp only
  rw [← serves]
  generalize w.allocateBytes fam (.thread value thread) (env.os 5) n
    (fam.alignOf value) = attempt at outcome ⊢
  obtain ⟨w', _⟩ := attempt
  obtain rfl := outcome
  dsimp only
  by_cases null : q = 0
  · subst null
    right
    rw [if_pos rfl]
    exact ⟨not_not_intro rfl, rfl⟩
  · left
    rw [if_neg null]
    exact ⟨by simpa using null, q, rfl⟩

include classes avoids

/-- A small request that has room with the parked and the cached runs counted as
free is served. -/
theorem WorldOk.allocate_small (cutoff : n ≤ tlsRunCutoff)
    (room : (w.runs (.thread value thread)).HasRoom
      (w.parkedRuns value thread ∪ w.ownCachedRuns fam value thread) n) :
    ∃ p, (w.allocate fam (.defaultState stateless : Handle fam value) thread env
      n).2 = .ok p := by
  have created := ok.created_of_room room
  obtain ⟨inClasses, classBytes⟩ := tlsClass_spec (by omega : 0 < n) cutoff
  obtain ⟨runs, parked, runner⟩ := ok.runnerOk (.thread value thread)
  have rounded := runner.room_rounded room
  rw [← classBytes] at rounded
  have served := ok.obtain_served classes fixed started created small
    (fun i => avoids.others _ i) inClasses rounded
  obtain ⟨entries, cls⟩ := ok.classes value thread (tlsClassIndexFor n)
  have first := ok.tlsPopForOwner_first cls (fam.runsAt (.thread value thread))
  rw [World.allocate_bytes stateless single several bounded, if_pos cutoff]
  unfold World.allocateFromTlsRunCache
  dsimp only
  rw [World.runsPtr_created stateless created]
  dsimp only
  generalize w.tlsPopForOwner value thread (tlsClassIndexFor n)
    (fam.runsAt (.thread value thread)) = popped at first ⊢
  cases first with
  | @entry w' p front back split nonnull =>
      dsimp only
      rw [if_pos nonnull]
      dsimp only
      unfold World.allocateRest
      rw [if_pos nonnull]
      exact ⟨p, rfl⟩
  | nothing without =>
      dsimp only
      rw [if_neg (by simp), World.allocateForCache_eq]
      generalize w.obtain fam value thread (.thread value thread) env.os
        (tlsClassIndexFor n) = outcome at served ⊢
      obtain ⟨p, nonnull, same⟩ := served
      obtain ⟨w', _⟩ := outcome
      obtain rfl := same
      dsimp only
      rw [if_neg nonnull]
      unfold World.refillAndHandOut World.allocateRest
      rw [if_neg (by rw [fixed]; decide)]
      dsimp only
      rw [if_pos nonnull]
      exact ⟨p, rfl⟩

end Allocation

/-- Requests of up to `tls_run_cutoff` bytes fail only when the runner has no room
for them even with its parked runs and its runs in the thread's cache counted as
free.  Larger ones do so exactly when the cached runs make no difference. -/
theorem allocate_exhausted (reachable : (sessions fam).Reachable session)
    (fixed : fam.mode = MemoryMode.fixed) (stateless : fam.stateless = true)
    (single : fam.sizeOf value = 1)
    (aligned : fam.alignOf value ∣ fam.sizeOf value)
    (allowed : session.Allows
      (.allocate (.defaultState stateless : Handle fam value) thread env n))
    (several : 2 ≤ n) (bounded : n ≤ fam.maxSize value) :
    let w := session.world
    let outcome := (w.allocate fam (.defaultState stateless : Handle fam value)
      thread env n).2
    let roomBeside := fun spared : Set Nat =>
      (w.runs (.thread value thread)).HasRoom spared n
    (outcome = .error .badAlloc ∨ outcome = .error .refused →
        ¬ roomBeside
          (w.parkedRuns value thread ∪ w.ownCachedRuns fam value thread)) ↔
      n ≤ tlsRunCutoff ∨
        (roomBeside (w.parkedRuns value thread ∪
            w.ownCachedRuns fam value thread) →
          roomBeside (w.parkedRuns value thread)) := by
  obtain ⟨⟨ledger, ok⟩, started⟩ := started_inductive.reachable reachable
  obtain ⟨_, _, avoids, _⟩ := allowed
  have small : fam.alignOf value ≤ 16 := by
    have bytes := Nat.le_of_dvd (by omega) aligned
    omega
  have classes : ∀ p idx, ledger.place p = some (.cached value thread idx) →
      idx < tlsRunClassCount := fun p idx cached =>
    (ok.cached p value thread idx cached).1
  dsimp only
  by_cases room : (session.world.runs (.thread value thread)).HasRoom
      (session.world.parkedRuns value thread ∪
        session.world.ownCachedRuns fam value thread) n
  swap
  · exact iff_of_true (fun _ => room) (Or.inr fun there => absurd there room)
  have begun := started value thread (ok.world.created_of_room room)
  have chunked : (session.world.runs (.thread value thread)).chunks ≠ [] := by
    obtain ⟨chunk, member, _⟩ := room
    exact List.ne_nil_of_mem member
  by_cases cutoff : n ≤ tlsRunCutoff
  · obtain ⟨p, served⟩ := ok.world.allocate_small env classes fixed begun small
      stateless avoids single several bounded cutoff room
    refine iff_of_true ?_ (Or.inl cutoff)
    rw [served]
    rintro (thrown | thrown) <;> cases thrown
  · rcases ok.world.allocate_large env fixed begun small stateless single
      several bounded (Nat.lt_of_not_le cutoff) chunked with
        ⟨there, p, served⟩ | ⟨full, thrown⟩
    · refine iff_of_true ?_ (Or.inr fun _ => there)
      rw [served]
      rintro (thrown | thrown) <;> cases thrown
    · refine iff_of_false (fun never => never (Or.inl thrown) room) ?_
      rintro (small | enough)
      · exact cutoff small
      · exact full (enough room)

theorem largePage : 4 ≤ 13 ∧ 13 < 64 := by decide

/-- A fixed allocator for bytes on pages of 8192 bytes. -/
def pagedFamily : Family Bool Bool Unit :=
  sampleFamily .fixed 13 largePage 1 sampleSize

def pagedHandle : Handle pagedFamily false :=
  .defaultState rfl

def servedSession : Session pagedFamily :=
  (sampleStart pagedFamily).perform
    (.allocate pagedHandle false sampleEnvironment 4096)

/-- The thread has allocated a run of 4096 bytes and freed it into its cache. -/
def cachedSession : Session pagedFamily :=
  servedSession.perform
    (.deallocate ⟨false, pagedHandle, 4096, 4096, 65552⟩ pagedHandle false 4096)

theorem pagedHandle_usable (w : World Bool Bool Unit) : pagedHandle.Usable w := by
  rintro site (⟨⟨⟩⟩ | ⟨⟨⟩⟩)

theorem servedSession_mem :
    (⟨false, pagedHandle, 4096, 4096, 65552⟩ : Item pagedFamily) ∈
      servedSession.live := by
  apply Session.mem_perform_allocate
  · decide +kernel
  · decide

theorem servedSession_alive (value thread : Bool) :
    servedSession.exited value thread = false := by
  rw [servedSession]
  exact Session.alive_perform_allocate rfl

theorem cachedSession_reachable :
    (sessions pagedFamily).Reachable cachedSession := by
  have served : (sessions pagedFamily).Reachable servedSession :=
    .step (sampleStart_reachable _) (.call _ ⟨rfl, pagedHandle_usable _,
      sampleStart_avoids _, by decide⟩)
  exact .step served (.call _ ⟨servedSession_alive _ false, servedSession_mem,
    ⟨rfl, rfl⟩, le_rfl, le_rfl⟩)

theorem cachedSession_allows :
    cachedSession.Allows (.allocate pagedHandle false refusingEnvironment 4097) :=
  ⟨servedSession_alive false false, pagedHandle_usable _,
    refusingEnvironment_avoids _, by decide⟩

theorem cachedSession_throws :
    (cachedSession.world.allocate pagedFamily pagedHandle false refusingEnvironment
        4097).2 = .error .badAlloc ∧
      (cachedSession.world.runs (.thread false false)).chunks =
        [⟨65536, 8192, 65536, 8192⟩] ∧
      (cachedSession.world.runs (.thread false false)).runsIn ⟨65536, 8192, 65536, 8192⟩ =
        [⟨65536, 4112, .used⟩, ⟨69648, 4064, .free⟩] ∧
      (cachedSession.world.classes false false 255).head = 65552 ∧
      cachedSession.world.mem 65552 = 0 ∧
      cachedSession.world.mem 65560 = pagedFamily.runsAt (.thread false false) := by
  decide +kernel

theorem cachedSession_room :
    (cachedSession.world.runs (.thread false false)).HasRoom
      (cachedSession.world.parkedRuns false false ∪
        cachedSession.world.ownCachedRuns pagedFamily false false) 4097 := by
  obtain ⟨_, chunks, runs, head, last, stamp⟩ := cachedSession_throws
  have cached : cachedSession.world.Cached false false 255 65552 :=
    ⟨[65552], ⟨head, by decide, last⟩, by simp⟩
  refine ⟨⟨65536, 8192, 65536, 8192⟩, by rw [chunks]; simp, 65536, le_rfl,
    by decide, ?_⟩
  rintro addr size ⟨chunk, member, inChunk⟩ kept
  rw [chunks] at member
  obtain rfl := List.mem_singleton.mp member
  rw [runs] at inChunk
  simp only [List.mem_cons, Block.mk.injEq, reduceCtorEq, and_false, or_false,
    and_true, List.not_mem_nil] at inChunk
  obtain ⟨rfl, rfl⟩ := inChunk
  exact absurd (Or.inr ⟨255, cached, stamp⟩) kept

/-- The request fails though its runner has room once the cached run is
returned. -/
theorem cachedSession_exhausted :
    ∃ session : Session pagedFamily,
      (sessions pagedFamily).Reachable session ∧
      session.Allows (.allocate pagedHandle false refusingEnvironment 4097) ∧
      4097 ≤ pagedFamily.maxSize false ∧
      (session.world.allocate pagedFamily pagedHandle false refusingEnvironment
        4097).2 = .error .badAlloc ∧
      (session.world.runs (.thread false false)).HasRoom
        (session.world.parkedRuns false false ∪
          session.world.ownCachedRuns pagedFamily false false) 4097 :=
  ⟨cachedSession, cachedSession_reachable, cachedSession_allows, by decide,
    cachedSession_throws.1, cachedSession_room⟩

/-- There is no room for the request as long as the run stays in the cache. -/
theorem cachedSession_full :
    ¬ (cachedSession.world.runs (.thread false false)).HasRoom
      (cachedSession.world.parkedRuns false false) 4097 := by
  intro room
  have never := (allocate_exhausted cachedSession_reachable rfl rfl rfl
    (by decide) cachedSession_allows (by decide) (by decide)).mpr
      (Or.inr fun _ => room)
  exact never (Or.inl cachedSession_throws.1) cachedSession_room

end Suballocated

end Allocazam
