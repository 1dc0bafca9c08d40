import Allocazam.SuballocatedExpansion

/-!
# Safety of the suballocated allocator

The invariant holds in every session: every step of the session keeps it, and
nothing comes adrift but what a failing refill loses.
-/

namespace Allocazam

namespace Suballocated

variable {Value Thread Bound : Type} {fam : Family Value Thread Bound}
  {session : Session fam} {ledger : Ledger Value Thread Bound}
  {value : Value} {thread : Thread} {a : Handle fam value}
  {env : Environment} {n count : Nat}

/-- The invariant of a session: the caches of threads that have exited are
empty. -/
structure SessionOk (session : Session fam)
    (ledger : Ledger Value Thread Bound) : Prop where
  world : WorldOk fam session.world session.live ledger
  cached : ∀ p value thread idx,
    ledger.place p = some (.cached value thread idx) →
      idx < tlsRunClassCount ∧ session.exited value thread = false

def Ledger.Settled (ledger next : Ledger Value Thread Bound) : Prop :=
  ∀ p, next.place p = some .adrift → ledger.place p = some .adrift

variable [DecidableEq Value] [DecidableEq Thread] [DecidableEq Bound]

/-- A call that may lose a run: an allocation whose refill throws. -/
def Operation.LosesRun (w : World Value Thread Bound) : Operation fam → Prop
  | .allocate a thread env n => w.LosesRun fam a thread env n
  | @Operation.allocateAtLeast _ _ _ _ value a thread env n =>
      w.LosesRun fam a thread env (World.growthCount fam value n)
  | _ => False

def Ledger.blank : Ledger Value Thread Bound :=
  ⟨fun _ => [], fun _ => [], fun _ => none⟩

omit [DecidableEq Value] [DecidableEq Thread] [DecidableEq Bound] in
theorem unborn_initial (mem : Nat → Nat) (site : Site Value Thread Bound) :
    Unborn fam (World.initial fam mem) .blank site where
  pool := Pool.blank_vacant mem 4096
  chunks := rfl
  nodes := rfl
  runs := rfl

omit [DecidableEq Value] [DecidableEq Thread] [DecidableEq Bound] in
theorem territory_initial (mem : Nat → Nat) (tenant : Tenant Value Thread Bound) :
    (World.initial fam mem).territory fam tenant = ∅ := by
  cases tenant with
  | pool site => exact (unborn_initial mem site).territory_pool
  | runs site => exact (unborn_initial mem site).territory_runs

omit [DecidableEq Value] [DecidableEq Thread] [DecidableEq Bound] in
theorem worldOk_initial (mem : Nat → Nat) :
    WorldOk fam (World.initial fam mem) [] .blank where
  tenants :=
    { apart := by
        intro tenant other _
        show Disjoint (World.territory fam _ tenant)
          (World.territory fam _ other)
        rw [territory_initial]
        exact Set.disjoint_left.mpr fun _ none => absurd none (by simp)
      holds := by
        rintro (site | site)
        · intro created
          cases created
        · exact ⟨∅, [], Runner.starts_ok (.deferred (World.lazyBytes_lt site))⟩ }
  unborn site _ := unborn_initial mem site
  placed p := by
    refine iff_of_false (by simp [Ledger.blank]) ?_
    rintro (⟨_, node⟩ | ⟨_, _, member, _⟩)
    · cases node
    · cases member
  nodes _ _ node := by cases node
  held p := by simp [Ledger.blank]
  distinct := List.nodup_nil
  items _ member := by cases member
  classes value thread idx := ⟨[], rfl, rfl, by simp, by simp [Ledger.blank]⟩

/-- The session after an allocation for `n` values that asked for `count`. -/
def Session.finish (session : Session fam) (a : Handle fam value)
    (n count : Nat) :
    World Value Thread Bound × Except Exn Nat → Session fam
  | (w, .ok p) => { session with world := w, live := session.record a n count p }
  | (w, .error _) => { session with world := w }

omit [DecidableEq Value] [DecidableEq Thread] [DecidableEq Bound] in
theorem Session.finish_world (n count : Nat)
    (result : World Value Thread Bound × Except Exn Nat) :
    (session.finish a n count result).world = result.1 := by
  obtain ⟨w, exn | p⟩ := result <;> rfl

theorem Session.perform_allocate :
    session.perform (.allocate a thread env n) =
      session.finish a n n (session.world.allocate fam a thread env n) := by
  unfold Session.perform
  dsimp only
  generalize session.world.allocate fam a thread env n = result
  obtain ⟨w, exn | p⟩ := result <;> rfl

theorem Session.perform_allocateAtLeast (some : n ≠ 0) :
    session.perform (.allocateAtLeast a thread env n) =
      session.finish a n (World.growthCount fam value n)
        (session.world.allocate fam a thread env
          (World.growthCount fam value n)) := by
  unfold Session.perform World.allocateAtLeast
  dsimp only
  rw [if_neg some]
  generalize session.world.allocate fam a thread env _ = result
  obtain ⟨w, exn | p⟩ := result <;> rfl

theorem Session.perform_exit :
    session.perform (.exit value thread) =
      { session with
        world := session.world.destroyCache fam value thread
        exited := Function.update session.exited value
          (Function.update (session.exited value) thread true) } := by
  unfold Session.perform
  dsimp only

theorem Session.perform_allocateAtLeast_zero :
    session.perform (.allocateAtLeast a thread env 0) = session :=
  rfl

omit [DecidableEq Value] [DecidableEq Thread] [DecidableEq Bound] in
/-- What is handed to a user has not come adrift. -/
theorem Ledger.Served.settled {p : Nat} {next : Ledger Value Thread Bound}
    (served : Ledger.Served value thread [p] ledger next) :
    ledger.Settled (next.settle p .held) := by
  intro q loose
  by_cases moved : q = p
  · subst moved
    rw [settle_self] at loose
    cases loose
  · rw [settle_of_ne _ moved] at loose
    rcases (served.loose q).mp loose with old | listed
    · exact old
    · exact absurd (List.mem_singleton.mp listed) moved

namespace SessionOk

variable (ok : SessionOk session ledger)

include ok

omit [DecidableEq Value] [DecidableEq Thread] [DecidableEq Bound] in
theorem served_cached {loose : List Nat} {next : Ledger Value Thread Bound}
    (served : Ledger.Served value thread loose ledger next)
    (alive : session.exited value thread = false) (p : Nat) (value' : Value)
    (thread' : Thread) (idx : Nat)
    (new : next.place p = some (.cached value' thread' idx)) :
    idx < tlsRunClassCount ∧ session.exited value' thread' = false := by
  rcases served.cached p value' thread' idx new with old | ⟨rfl, rfl, bound⟩
  · exact ok.cached p value' thread' idx old
  · exact ⟨bound, alive⟩

omit [DecidableEq Value] [DecidableEq Thread] [DecidableEq Bound] in
/-- A pointer that was allocated is handed to its user. -/
theorem handOver {w : World Value Thread Bound} {p : Nat}
    {next : Ledger Value Thread Bound}
    (served : Ledger.Served value thread [p] ledger next)
    (alive : session.exited value thread = false)
    (after : WorldOk fam w session.live next) (nonnull : p ≠ 0)
    (fits : ItemOk next (⟨value, a, n, count, p⟩ : Item fam)) :
    SessionOk (session.finish a n count (w, .ok p)) (next.settle p .held) where
  world := by
    have loose : next.place p = some .adrift :=
      (served.loose p).mpr (Or.inr List.mem_cons_self)
    have handed : WorldOk fam w (⟨value, a, n, count, p⟩ :: session.live)
        (next.settle p .held) := after.handOver loose fits
    unfold Session.finish Session.record
    dsimp only
    rw [if_neg nonnull]
    exact handed
  cached q value' thread' idx new := by
    by_cases moved : q = p
    · subst moved
      rw [Ledger.settle_self] at new
      cases new
    · rw [Ledger.settle_of_ne _ moved] at new
      exact ok.served_cached served alive q value' thread' idx new

omit [DecidableEq Value] [DecidableEq Thread] [DecidableEq Bound] in
theorem finish {orphans : Prop}
    {result : World Value Thread Bound × Except Exn Nat}
    (outcome : AllocateOutcome fam session.live ledger a thread count orphans
      result)
    (alive : session.exited value thread = false)
    (asked : 1 ≤ count → 1 ≤ n ∧ n ≤ count ∧ (n = 1 → count = 1)) :
    ∃ next, SessionOk (session.finish a n count result) next ∧
      (¬ orphans → ledger.Settled next) := by
  cases outcome with
  | null none after =>
      exact ⟨ledger, ⟨after, ok.cached⟩, fun _ _ same => same⟩
  | @node w p next one bounded pooled nonnull after served node =>
      obtain ⟨positive, le, single⟩ := asked one.ge
      refine ⟨_, ok.handOver served alive after nonnull ?_, fun _ =>
        served.settled⟩
      exact
        { asked := positive
          returned := le
          bounded := bounded
          single := single
          node := fun _ => ⟨_, node, a.drawsFrom_siteOn thread⟩
          run := fun several => absurd ⟨one, pooled⟩ several }
  | @run w p next positive bounded routed nonnull after served run =>
      obtain ⟨asked, le, single⟩ := asked positive
      refine ⟨_, ok.handOver served alive after nonnull ?_, fun _ =>
        served.settled⟩
      exact
        { asked := asked
          returned := le
          bounded := bounded
          single := single
          node := fun lone => absurd (routed lone.1) lone.2
          run := by
            obtain ⟨allocation, member, payload, covers⟩ := run
            exact fun _ => ⟨_, allocation, member, payload, covers,
              a.drawsFrom_siteOn thread⟩ }
  | @throws w exn next loose after served owned lost =>
      refine ⟨next, ⟨after, ok.served_cached served alive⟩, ?_⟩
      intro none p isLoose
      have empty : loose = [] := by
        by_contra some
        exact none (lost.mp some)
      subst empty
      exact ((served.loose p).mp isLoose).resolve_right (by simp)

theorem call {operation : Operation fam} (allowed : session.Allows operation) :
    ∃ next, SessionOk (session.perform operation) next ∧
      (¬ operation.LosesRun session.world → ledger.Settled next) := by
  cases operation with
  | construct state heap os arguments =>
      obtain ⟨missing, allowed⟩ := allowed
      exact ⟨ledger, ⟨ok.world.construct missing allowed, ok.cached⟩,
        fun _ _ same => same⟩
  | allocate a thread env n =>
      obtain ⟨alive, usable, avoids, _⟩ := allowed
      rw [Session.perform_allocate]
      have outcome : AllocateOutcome fam session.live ledger a thread n
          (n ≤ fam.maxSize _ ∧ session.world.LosesRun fam a thread env n)
          (session.world.allocate fam a thread env n) :=
        ok.world.allocate usable avoids
      obtain ⟨next, after, settled⟩ := ok.finish outcome alive
        fun positive => ⟨positive, le_rfl, id⟩
      exact ⟨next, after, fun safe => settled fun lost => safe lost.2⟩
  | @allocateAtLeast value a thread env n =>
      obtain ⟨alive, usable, avoids, bounded⟩ := allowed
      by_cases none : n = 0
      · subst none
        rw [Session.perform_allocateAtLeast_zero]
        exact ⟨ledger, ok, fun _ _ same => same⟩
      · rw [Session.perform_allocateAtLeast none]
        obtain ⟨le, _, single⟩ := Family.growthCount_spec bounded
        have outcome : AllocateOutcome fam session.live ledger a thread
            (World.growthCount fam value n)
            (World.growthCount fam value n ≤ fam.maxSize value ∧
              session.world.LosesRun fam a thread env
                (World.growthCount fam value n))
            (session.world.allocate fam a thread env
              (World.growthCount fam value n)) :=
          ok.world.allocate usable avoids
        obtain ⟨next, after, settled⟩ := ok.finish outcome alive
          fun _ => ⟨by omega, le, single⟩
        exact ⟨next, after, fun safe => settled fun lost => safe lost.2⟩
  | deallocate item b thread m =>
      obtain ⟨alive, member, equal, lower, upper⟩ := allowed
      have returned : ∃ next, WorldOk fam
          (session.world.deallocate fam b thread item.ptr m)
          (session.live.filter fun other => other.ptr ≠ item.ptr) next ∧
            Ledger.Freed item.value thread item.ptr ledger next :=
        ok.world.deallocate member equal lower upper
      obtain ⟨next, after, freed⟩ := returned
      refine ⟨next, ⟨after, fun p value' thread' idx new => ?_⟩,
        fun _ p loose => (freed.adrift p loose).2⟩
      rcases freed.cached p value' thread' idx new with old | ⟨rfl, rfl, bound⟩
      · exact ok.cached p value' thread' idx old
      · exact ⟨bound, alive⟩
  | expand item b thread minNewBytes =>
      obtain ⟨_, member, equal, word⟩ := allowed
      have expanded : ∃ next, WorldOk fam
          (session.world.expand fam b thread item.ptr minNewBytes).1 session.live
          next ∧ next.place = ledger.place := ok.world.expand member equal word
      obtain ⟨next, after, same⟩ := expanded
      refine ⟨next, ⟨after, ?_⟩, ?_⟩
      · rw [same]
        exact ok.cached
      · intro _ p loose
        rw [same] at loose
        exact loose
  | exit value thread =>
      obtain ⟨gone, next, returned, after, cached⟩ :=
        ok.world.destroyCache value thread
      rw [Session.perform_exit]
      generalize session.world.destroyCache fam value thread = w at after ⊢
      refine ⟨next, ⟨after, fun p value' thread' idx new => ?_⟩, ?_⟩
      · have spared : p ∉ gone := by
          intro listed
          rw [returned.freed p listed] at new
          cases new
        rw [returned.kept p spared] at new
        obtain ⟨bound, alive⟩ := ok.cached p value' thread' idx new
        refine ⟨bound, ?_⟩
        show Function.update session.exited value
          (Function.update (session.exited value) thread true) value' thread' =
            false
        by_cases sameValue : value' = value
        · subst sameValue
          by_cases sameThread : thread' = thread
          · subst sameThread
            exact absurd ((cached p).mpr ⟨idx, bound, new⟩) spared
          · rw [Function.update_self, Function.update_of_ne sameThread]
            exact alive
        · rw [Function.update_of_ne sameValue]
          exact alive
      · intro _ p loose
        have spared : p ∉ gone := by
          intro listed
          rw [returned.freed p listed] at loose
          cases loose
        rw [returned.kept p spared] at loose
        exact loose

omit [DecidableEq Value] [DecidableEq Thread] [DecidableEq Bound] in
theorem store {addr : Nat} (written : Nat) (writable : session.Writable addr) :
    SessionOk { session with world := session.world.write addr written }
      ledger where
  world := by
    obtain ⟨item, member, lower, inside⟩ := writable
    have fits := ok.world.items item member
    rcases inside with ⟨single, upper⟩ | ⟨several, upper⟩
    · obtain ⟨site, node, draws⟩ := fits.node single
      refine ok.world.storeNode node ⟨lower, ?_⟩ written
      show addr < item.ptr + Pool.nodeBytes (fam.sizeOf (fam.valueOf site))
        (fam.alignOf (fam.valueOf site))
      rw [draws.typed single.2]
      exact upper
    · obtain ⟨site, allocation, listed, payload, _⟩ := fits.run several
      have held := (ok.world.held item.ptr).mpr ⟨item, member, rfl⟩
      rw [← payload] at lower upper held
      exact ok.world.storeRun listed (by simp [held]) lower upper written
  cached := ok.cached

omit [DecidableEq Value] [DecidableEq Thread] [DecidableEq Bound] in
/-- Somebody writes to memory that no pool and no runner owns. -/
theorem elsewhere {addr : Nat} (written : Nat)
    (unused : addr ∉ session.world.inUse fam) :
    SessionOk { session with world := session.world.write addr written }
      ledger :=
  ⟨ok.world.storeUnused unused written, ok.cached⟩

end SessionOk

theorem sessions_inductive :
    (sessions fam).Inductive fun session => ∃ ledger, SessionOk session ledger where
  start session starts := by
    obtain ⟨mem, rfl⟩ := starts
    exact ⟨.blank, worldOk_initial mem, by simp [Ledger.blank]⟩
  step session session' := by
    rintro ⟨ledger, ok⟩ step
    cases step with
    | call operation allowed =>
        obtain ⟨next, after, _⟩ := ok.call allowed
        exact ⟨next, after⟩
    | store addr value writable => exact ⟨ledger, ok.store value writable⟩
    | elsewhere addr value unused => exact ⟨ledger, ok.elsewhere value unused⟩

end Suballocated

end Allocazam
