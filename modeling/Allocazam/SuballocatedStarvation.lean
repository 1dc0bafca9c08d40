import Allocazam.RunnerSupply
import Allocazam.SuballocatedAllocate
import Allocazam.SuballocatedObservation

/-!
# When the refill runs out

A call through the cache loses its run when the runner can serve the request itself and
not all of the refill's.  Whether it does can be told from the state before the call and
from the system at each of the refill's requests.
-/

namespace Allocazam

namespace Suballocated

variable {Value Thread Bound : Type} [DecidableEq Value] [DecidableEq Thread]
  [DecidableEq Bound] {fam : Family Value Thread Bound} {w w' : World Value Thread Bound}
  {live : List (Item fam)} {ledger : Ledger Value Thread Bound}
  {site : Site Value Thread Bound} {value : Value} {thread : Thread} {a : Handle fam value}
  {env : Environment} {n idx p needed : Nat}

def classRunBytes (idx : Nat) : Nat :=
  max (tlsClassBytes idx + Runner.headerBytes) Runner.minFreeRunSize

omit [DecidableEq Value] [DecidableEq Thread] [DecidableEq Bound] in
/-- The runner that a thread's call turns to: its own, or the one that is constructed for
it. -/
def World.runsFor (w : World Value Thread Bound) (value : Value) (thread : Thread) :
    Runner.State :=
  if w.created (.thread value thread) = true then w.runs (.thread value thread)
  else Runner.State.constructLazy w.mem 65536

/-- A request through the cache finds no run of the thread's own runner in its class list,
and the runner serves it, but not all three requests of the refill after it. -/
structure World.Spills (fam : Family Value Thread Bound) (w : World Value Thread Bound)
    (a : Handle fam value) (thread : Thread) (env : Environment) (n : Nat) : Prop where
  several : 2 ≤ n
  cached : a.canUseTlsRunCache n = true
  dynamic : fam.mode = MemoryMode.dynamic
  aligned : fam.alignOf value ≤ Runner.runAlignment
  resolved : w.created (.thread value thread) = true ∨ env.room = true
  uncached : ∀ p, w.Cached value thread (tlsClassIndexFor n) p →
    w.mem (p + 8) ≠ fam.runsAt (.thread value thread)
  starves : ∃ next,
    ((w.runsFor value thread).supply (classRunBytes (tlsClassIndexFor n))).Serves
      (fam.runsConfig (.thread value thread)) (env.os 0)
      (classRunBytes (tlsClassIndexFor n)) next ∧
    next.Starves (fam.runsConfig (.thread value thread))
      (classRunBytes (tlsClassIndexFor n)) [env.os 4, env.os 3, env.os 2]

omit [DecidableEq Value] [DecidableEq Thread] [DecidableEq Bound] in
/-- When the system refuses every chunk, that is a runner that serves one to three requests. -/
theorem World.Spills.stock (spills : w.Spills fam a thread env n)
    (refused : ∀ i chunks bytes, (env.os i).grant chunks bytes = none) :
    ((w.runsFor value thread).supply (classRunBytes (tlsClassIndexFor n))).stock ∈
      Set.Icc 1 3 := by
  obtain ⟨next, serves, starves⟩ := spills.starves
  have few : next.stock < 3 := by
    refine (Runner.Supply.starves_iff_of_refused fun os listed => ?_).mp starves
    simp only [List.mem_cons, List.not_mem_nil, or_false] at listed
    rcases listed with rfl | rfl | rfl <;> exact refused _
  generalize (w.runsFor value thread).supply (classRunBytes (tlsClassIndexFor n)) = supply
    at serves
  cases serves with
  | stocked => exact ⟨Nat.succ_pos _, few⟩
  | restocked restocked =>
      cases restocked with
      | first _ granted => cases (refused 0 _ _).symm.trans granted.2.2
      | growth _ _ granted => cases (refused 0 _ _).symm.trans granted.2.2

def refillSystems (os : Nat → Runner.Os) : Nat → List Runner.Os
  | 0 => []
  | rounds + 1 => os (rounds + 2) :: refillSystems os rounds

omit [DecidableEq Value] [DecidableEq Thread] [DecidableEq Bound] in
theorem normalized_classRunBytes (bounded : idx < tlsRunClassCount) :
    Runner.normalizedRunBytesForPayload
      (if tlsClassBytes idx = 0 then 1 else tlsClassBytes idx) =
        some (classRunBytes idx) := by
  have word := tlsClassBytes_lt bounded
  have count : tlsRunClassCount = 256 := by decide
  have positive : tlsClassBytes idx ≠ 0 := by
    unfold tlsClassBytes tlsRunQuantum
    omega
  rw [if_neg positive, Runner.normalizedRunBytesForPayload_eq word, if_pos ?_]
  · unfold classRunBytes tlsClassBytes tlsRunQuantum
    simp only [Runner.headerBytes_eq, Runner.minFreeRunSize_eq]
    congr 1
    omega
  · unfold tlsClassBytes tlsRunQuantum
    omega

omit [DecidableEq Value] [DecidableEq Thread] [DecidableEq Bound] in
theorem Family.growable (dynamic : fam.mode = MemoryMode.dynamic)
    (site : Site Value Thread Bound) : (fam.runsConfig site).canGrow = true := by
  simp [Family.runsConfig, dynamic]

namespace WorldOk

variable (ok : WorldOk fam w live ledger)

include ok

omit [DecidableEq Value] [DecidableEq Thread] [DecidableEq Bound] in
/-- How a request for a run of a class ends is decided by the runner's supply. -/
theorem allocateBytes_leads (site : Site Value Thread Bound) (os : Runner.Os)
    (bounded : idx < tlsRunClassCount) (aligned : fam.alignOf value ≤ 16) :
    ((w.runs site).supply (classRunBytes idx)).Leads (fam.runsConfig site) os
      (classRunBytes idx) ((w.runs site).allocateBytes (fam.runsConfig site) os
        (tlsClassBytes idx) (fam.alignOf value)) := by
  obtain ⟨_, _, runner, _⟩ := ok.runsOk site
  exact Runner.allocateBytes_leads os runner (tlsClassBytes_lt bounded) aligned
    (normalized_classRunBytes bounded)

omit [DecidableEq Bound] in
theorem tlsPush_supply (run : ledger.HasRun site p) (value : Value) (thread : Thread)
    (idx stamp needed : Nat) :
    ((w.tlsPush value thread idx p stamp).runs site).supply needed =
      (w.runs site).supply needed := by
  obtain ⟨allocation, member, rfl⟩ := run
  have large := (ok.payload_large member).1
  obtain ⟨linked, first⟩ := (ok.runsOk site).write_supply
    ⟨allocation, member, le_rfl, Nat.lt_add_of_pos_right (by
      show 0 < w.payloadBytes allocation.payload
      omega)⟩ (w.classes value thread idx).head needed
  obtain ⟨large', _⟩ := linked.payload_spec member
  obtain ⟨_, second⟩ := linked.write_supply
    ⟨allocation, member, Nat.le_add_right _ 8, Nat.add_lt_add_left (by omega) _⟩ stamp
    needed
  exact second.trans first

/-- The requests of the refill are served as long as the supply does not starve. -/
theorem refill_throws_iff (os : Nat → Runner.Os)
    (created : w.created (.thread value thread) = true)
    (avoids : ∀ i, (os i).Avoids (w.others fam (.runs (.thread value thread))))
    (bounded : idx < tlsRunClassCount) (dynamic : fam.mode = MemoryMode.dynamic)
    (aligned : fam.alignOf value ≤ 16) (rounds : Nat) :
    (∃ exn, (World.refill fam value thread (.thread value thread) os idx rounds w).2 =
        .error exn) ↔
      ((w.runs (.thread value thread)).supply (classRunBytes idx)).Starves
        (fam.runsConfig (.thread value thread)) (classRunBytes idx)
        (refillSystems os rounds) := by
  induction rounds generalizing w ledger with
  | zero =>
      refine iff_of_false ?_ id
      rintro ⟨exn, ⟨⟩⟩
  | succ rounds ih =>
      have leads := ok.allocateBytes_leads (.thread value thread) (os (rounds + 2))
        bounded aligned
      obtain ⟨after, fresh⟩ := ok.allocateBytes (fam.alignOf value) created
        (avoids (rounds + 2)) (tlsClassBytes_lt bounded)
      have confined : Confined fam (.thread value thread) w _ :=
        allocateBytes_confined (os (rounds + 2)) (tlsClassBytes idx) (fam.alignOf value)
      unfold World.refill refillSystems
      unfold World.allocateBytes at after fresh confined ⊢
      generalize (w.runs (.thread value thread)).allocateBytes
        (fam.runsConfig (.thread value thread)) (os (rounds + 2)) (tlsClassBytes idx)
        (fam.alignOf value) = outcome at leads after fresh confined ⊢
      cases leads with
      | exhausted _ fixed =>
          rw [Family.growable dynamic] at fixed
          cases fixed
      | thrown unserved => exact iff_of_true ⟨_, rfl⟩ (Or.inl unserved)
      | @served s q nonnull serves =>
          dsimp only at after fresh confined ⊢
          rw [if_neg nonnull]
          unfold Ledger.afterAllocation at after
          dsimp only at after
          rw [if_neg nonnull] at after
          have run : (ledger.acquire (.thread value thread) q (tlsClassBytes idx)).HasRun
              (.thread value thread) q := by
            refine ⟨⟨q, tlsClassBytes idx, 0⟩, ?_, rfl⟩
            unfold Ledger.acquire
            rw [Ledger.setRuns_self]
            exact List.mem_cons_self
          have supply := after.tlsPush_supply run value thread idx
            (fam.runsAt (.thread value thread)) (classRunBytes idx)
          rw [World.setRuns_runs] at supply
          have quiet : Confined fam (.thread value thread) w
              ((w.setRuns (.thread value thread) s).tlsPush value thread idx q
                (fam.runsAt (.thread value thread))) :=
            confined.trans (.of_states rfl rfl)
          rw [ih after.stock (by rw [quiet.created]; exact created)
            (fun i => by rw [quiet.others]; exact avoids i), supply]
          exact serves.starves_cons.symm

omit [DecidableEq Bound] in
/-- No run of the owner is found when none is in the class list. -/
theorem popped_null_iff (value : Value) (thread : Thread) (idx owner : Nat) :
    (w.tlsPopForOwner value thread idx owner).2 = 0 ↔
      ∀ p, w.Cached value thread idx p → w.mem (p + 8) ≠ owner := by
  obtain ⟨entries, cls⟩ := ok.classes value thread idx
  have popped : Popped fam w live ledger owner entries
      (w.tlsPopForOwner value thread idx owner) := ok.tlsPopForOwner cls
  generalize w.tlsPopForOwner value thread idx owner = result at popped
  cases popped with
  | nothing without =>
      refine iff_of_true rfl ?_
      rintro p ⟨others, chain, listed⟩
      rw [chain.unique cls.chain] at listed
      exact without p listed
  | @entry w' p listed stamp =>
      exact iff_of_false (cls.chain.ne_zero p listed) fun none =>
        none p ⟨entries, cls.chain, listed⟩ stamp

/-- In dynamic mode the run for the request is the first one. -/
theorem obtains_iff {os : Nat → Runner.Os} {raw : Nat} (bounded : idx < tlsRunClassCount)
    (dynamic : fam.mode = MemoryMode.dynamic) :
    w.obtain fam value thread (.thread value thread) os idx = (w', .ok raw) ∧ raw ≠ 0 ↔
      fam.alignOf value ≤ 16 ∧
      w.allocateBytes fam (.thread value thread) (os 0) (tlsClassBytes idx)
        (fam.alignOf value) = (w', .ok raw) := by
  unfold World.obtain
  by_cases aligned : fam.alignOf value ≤ 16
  · have leads := ok.allocateBytes_leads (.thread value thread) (os 0) bounded aligned
    unfold World.allocateBytes
    generalize (w.runs (.thread value thread)).allocateBytes
      (fam.runsConfig (.thread value thread)) (os 0) (tlsClassBytes idx)
      (fam.alignOf value) = outcome at leads ⊢
    cases leads with
    | exhausted _ fixed =>
        rw [Family.growable dynamic] at fixed
        cases fixed
    | thrown => simp
    | served nonnull =>
        dsimp only
        rw [if_neg nonnull]
        constructor
        · rintro ⟨same, _⟩
          exact ⟨aligned, same⟩
        · rintro ⟨_, same⟩
          cases same
          exact ⟨rfl, nonnull⟩
  · have refuses : ∀ (w : World Value Thread Bound) (os : Runner.Os),
        (w.allocateBytes fam (.thread value thread) os (tlsClassBytes idx)
          (fam.alignOf value)).2 = .ok 0 := by
      intro w os
      unfold World.allocateBytes Runner.State.allocateBytes
      rw [if_pos (Nat.not_le.mp aligned)]
    refine iff_of_false ?_ fun both => aligned both.1
    have first := refuses w (os 0)
    generalize w.allocateBytes fam (.thread value thread) (os 0) (tlsClassBytes idx)
      (fam.alignOf value) = outcome at first ⊢
    obtain ⟨w₁, result⟩ := outcome
    dsimp only at first
    subst first
    dsimp only
    rw [if_pos rfl]
    rintro ⟨same, nonnull⟩
    have second := refuses (w₁.tlsDrainAll fam value thread) (os 1)
    rw [same] at second
    exact nonnull (Except.ok.inj second)

/-- The refill fails when the supply of the runner starves after the request. -/
theorem refillFails_iff {os : Nat → Runner.Os}
    (created : w.created (.thread value thread) = true)
    (avoids : ∀ i, (os i).Avoids (w.others fam (.runs (.thread value thread))))
    (bounded : idx < tlsRunClassCount) :
    w.RefillFails fam value thread (.thread value thread) os idx ↔
      fam.mode = MemoryMode.dynamic ∧ fam.alignOf value ≤ 16 ∧
        ∃ next, ((w.runs (.thread value thread)).supply (classRunBytes idx)).Serves
            (fam.runsConfig (.thread value thread)) (os 0) (classRunBytes idx) next ∧
          next.Starves (fam.runsConfig (.thread value thread)) (classRunBytes idx)
            [os 4, os 3, os 2] := by
  unfold World.RefillFails
  refine and_congr_right fun dynamic => ?_
  have starts : ∀ raw w',
      raw ≠ 0 ∧ w.obtain fam value thread (.thread value thread) os idx = (w', .ok raw) ↔
        fam.alignOf value ≤ 16 ∧ w.allocateBytes fam (.thread value thread) (os 0)
          (tlsClassBytes idx) (fam.alignOf value) = (w', .ok raw) :=
    fun raw w' => and_comm.trans (ok.obtains_iff bounded dynamic)
  simp only [← and_assoc, starts]
  simp only [and_assoc, exists_and_left]
  refine and_congr_right fun aligned => ?_
  have leads := ok.allocateBytes_leads (.thread value thread) (os 0) bounded aligned
  obtain ⟨after, fresh⟩ := ok.allocateBytes (fam.alignOf value) created (avoids 0)
    (tlsClassBytes_lt bounded)
  have confined : Confined fam (.thread value thread) w _ :=
    allocateBytes_confined (os 0) (tlsClassBytes idx) (fam.alignOf value)
  unfold World.allocateBytes at after fresh confined ⊢
  generalize (w.runs (.thread value thread)).allocateBytes
    (fam.runsConfig (.thread value thread)) (os 0) (tlsClassBytes idx)
    (fam.alignOf value) = outcome at leads after fresh confined ⊢
  cases leads with
  | exhausted _ fixed =>
      rw [Family.growable dynamic] at fixed
      cases fixed
  | thrown unserved =>
      refine iff_of_false ?_ ?_
      · rintro ⟨raw, w', same, _⟩
        cases same
      · rintro ⟨next, serves, _⟩
        exact unserved next serves
  | @served s q nonnull serves =>
      dsimp only at after fresh confined ⊢
      have supply : (w.setRuns (.thread value thread) s).runs (.thread value thread) = s :=
        World.setRuns_runs s
      unfold Ledger.afterAllocation at after
      dsimp only at after
      rw [if_neg nonnull] at after
      have throws := after.refill_throws_iff os
        (by rw [confined.created]; exact created)
        (fun i => by rw [confined.others]; exact avoids i) bounded dynamic aligned
        (tlsRefillBatch - 1)
      rw [supply] at throws
      constructor
      · rintro ⟨raw, w', same, thrown⟩
        cases same
        exact ⟨_, serves, throws.mp thrown⟩
      · rintro ⟨next, other, starves⟩
        rw [other.unique serves] at starves
        exact ⟨q, _, rfl, throws.mpr starves⟩

end WorldOk

theorem World.threadState_runsFor {room : Bool} :
    ((w.threadState fam value thread room).2 = .ok (.thread value thread) ↔
      w.created (.thread value thread) = true ∨ room = true) ∧
    (fam.mode = MemoryMode.dynamic →
      (w.threadState fam value thread room).2 = .ok (.thread value thread) →
      (w.threadState fam value thread room).1.runs (.thread value thread) =
        w.runsFor value thread) := by
  unfold World.threadState World.runsFor
  dsimp only
  by_cases made : w.created (.thread value thread) = true
  · rw [if_pos made, if_pos made]
    exact ⟨iff_of_true rfl (Or.inl made), fun _ _ => rfl⟩
  rw [if_neg made, if_neg made]
  cases room with
  | false => exact ⟨iff_of_false (by simp) (by simp [made]), fun _ found => by cases found⟩
  | true =>
      refine ⟨iff_of_true rfl (Or.inr rfl), fun dynamic _ => ?_⟩
      rw [if_pos rfl]
      unfold World.runs Family.lazyState
      dsimp only
      rw [Function.update_self, if_pos dynamic]
      rfl

omit [DecidableEq Value] [DecidableEq Thread] [DecidableEq Bound] in
theorem Handle.bytes_of_canUse {bytes : Nat} (cached : a.canUseTlsRunCache bytes = true)
    (multiplied : checkedMul n (fam.sizeOf value) = some bytes) : bytes = n := by
  unfold Handle.canUseTlsRunCache at cached
  simp only [Bool.and_eq_true, beq_iff_eq] at cached
  rw [(checkedMul_eq_some.mp multiplied).2, cached.1.2, Nat.mul_one]

omit [DecidableEq Value] [DecidableEq Thread] [DecidableEq Bound] in
theorem Handle.multiplied_of_canUse (cached : a.canUseTlsRunCache n = true) :
    checkedMul n (fam.sizeOf value) = some n := by
  unfold Handle.canUseTlsRunCache at cached
  simp only [Bool.and_eq_true, beq_iff_eq, decide_eq_true_eq] at cached
  obtain ⟨⟨_, byte⟩, _, bounded⟩ := cached
  have cutoff : tlsRunCutoff = 4096 := rfl
  rw [byte]
  exact checkedMul_eq_some.mpr ⟨by omega, (Nat.mul_one n).symm⟩

theorem Handle.runsPtr_of_canUse {room : Bool} (cached : a.canUseTlsRunCache n = true) :
    w.runsPtr fam a thread room = w.threadState fam value thread room := by
  unfold Handle.canUseTlsRunCache at cached
  simp only [Bool.and_eq_true, beq_iff_eq] at cached
  obtain ⟨_, mode, _⟩ := cached
  cases a with
  | defaultState stateless => rfl
  | explicitState site typed => cases mode
  | runsOverride site => cases mode

/-- Whether a call loses a run is decided by the state before it and by the systems that it
sees. -/
theorem WorldOk.losesRun_iff_spills (ok : WorldOk fam w live ledger)
    (avoids : env.Avoids (w.inUse fam)) :
    w.LosesRun fam a thread env n ↔ w.Spills fam a thread env n := by
  by_cases cached : a.canUseTlsRunCache n = true
  swap
  · refine iff_of_false ?_ fun spills => cached spills.cached
    rintro ⟨_, bytes, _, multiplied, usable, _⟩
    rw [a.bytes_of_canUse usable multiplied] at usable
    exact cached usable
  by_cases several : 2 ≤ n
  swap
  · exact iff_of_false (fun lost => several lost.1) fun spills => several spills.several
  have multiplied := a.multiplied_of_canUse cached
  obtain ⟨own, cutoff⟩ := a.canUse_spec cached thread
  obtain ⟨inClasses, _⟩ := tlsClass_spec (by omega) cutoff
  obtain ⟨⟨after, same, made⟩, _⟩ :=
    ok.runsPtr thread env.room (a.usable_of_canUse cached w)
  have resolves : w.runsPtr fam a thread env.room =
      w.threadState fam value thread env.room := a.runsPtr_of_canUse cached
  obtain ⟨found, runs⟩ := @World.threadState_runsFor _ _ _ _ _ _ fam w value thread env.room
  have quiet : ∀ i, (env.os i).Avoids ((w.runsPtr fam a thread env.room).1.others fam
      (.runs (.thread value thread))) := fun i => by
    rw [same.others]
    exact avoids.others _ i
  unfold World.LosesRun
  rw [own] at made ⊢
  rw [resolves] at after same made quiet ⊢
  generalize w.threadState fam value thread env.room = outcome
    at after same made found runs quiet ⊢
  obtain ⟨w₁, result⟩ := outcome
  dsimp only at after same made found runs quiet ⊢
  have uncached := after.popped_null_iff value thread (tlsClassIndexFor n)
    (fam.runsAt (.thread value thread))
  unfold World.Cached at uncached
  rw [same.mem, same.classes] at uncached
  constructor
  · rintro ⟨_, bytes, w₂, multiplied', usable, resolved, popped, fails⟩
    obtain rfl := a.bytes_of_canUse usable multiplied'
    cases resolved
    obtain ⟨dynamic, aligned, starves⟩ :=
      (after.refillFails_iff (made ⟨_, rfl⟩) quiet inClasses).mp fails
    rw [runs dynamic rfl] at starves
    exact ⟨several, cached, dynamic, aligned, found.mp rfl, uncached.mp popped, starves⟩
  · rintro ⟨_, _, dynamic, aligned, resolved, none, starves⟩
    obtain rfl := found.mpr resolved
    rw [← runs dynamic rfl] at starves
    exact ⟨several, n, w₁, multiplied, cached, rfl, uncached.mpr none,
      (after.refillFails_iff (made ⟨_, rfl⟩) quiet inClasses).mpr
        ⟨dynamic, aligned, starves⟩⟩

end Suballocated

end Allocazam
