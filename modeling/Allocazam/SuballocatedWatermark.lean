import Allocazam.SuballocatedBounds
import Allocazam.SuballocatedRefill

/-!
# The high watermark of the run cache

Every call keeps the class lists within their bounds: allocations refill a list
that has no runs of the thread's own runner, and deallocations drain a list that
has reached the watermark before they add to it.
-/

namespace Allocazam

namespace Suballocated

variable {Value Thread Bound : Type} [DecidableEq Value] [DecidableEq Thread]
  [DecidableEq Bound] {fam : Family Value Thread Bound}
  {w w' : World Value Thread Bound} {live live' : List (Item fam)}
  {ledger middle next : Ledger Value Thread Bound}
  {site : Site Value Thread Bound} {value : Value} {thread : Thread}
  {idx p bytes n : Nat} {a : Handle fam value} {env : Environment}
  {session : Session fam}

omit [DecidableEq Value] [DecidableEq Thread] [DecidableEq Bound] in
/-- A refill of a class list without runs of the thread's own runner. -/
theorem Ledger.Gains.bounded
    (gains : Ledger.Gains value thread idx (tlsRefillBatch - 1) ledger next)
    (bounded : ledger.Bounded)
    (noOwn : ledger.cachedIn value thread idx ⊆
      ledger.foreignIn value thread idx) : next.Bounded where
  foreign value' thread' idx' :=
    (Set.encard_le_encard (gains.foreign value' thread' idx')).trans
      (bounded.foreign value' thread' idx')
  whole value' thread' idx' := by
    by_cases here : value' = value ∧ thread' = thread ∧ idx' = idx
    · obtain ⟨rfl, rfl, rfl⟩ := here
      calc (next.cachedIn value' thread' idx').encard
          ≤ (ledger.cachedIn value' thread' idx').encard +
              (tlsRefillBatch - 1 : Nat) := gains.here
        _ ≤ (ledger.foreignIn value' thread' idx').encard +
              (tlsRefillBatch - 1 : Nat) :=
            add_le_add_left (Set.encard_le_encard noOwn) _
        _ ≤ tlsHighWatermark + (tlsRefillBatch - 1 : Nat) :=
            add_le_add_left (bounded.foreign value' thread' idx') _
        _ = (tlsHighWatermark + tlsRefillBatch - 1 : Nat) := by
            norm_num
    · exact (Set.encard_le_encard (gains.others value' thread' idx' here)).trans
        (bounded.whole value' thread' idx')

namespace WorldOk

variable (ok : WorldOk fam w live ledger)

include ok

/-- `_allocate_from_tls_run_cache` once no cached run of the thread's own was
found. -/
theorem allocateForCache_bounded (bounded : ledger.Bounded)
    (noOwn : ledger.cachedIn value thread idx ⊆
      ledger.foreignIn value thread idx) {os : Nat → Runner.Os}
    (created : w.created (.thread value thread) = true)
    (avoids : ∀ i, (os i).Avoids (w.others fam (.runs (.thread value thread))))
    (inClasses : idx < tlsRunClassCount) :
    (w.allocateForCache fam value thread (.thread value thread) os
      idx).1.CacheBounded fam := by
  have obtained := ok.obtain_thinned created avoids inClasses
  have confined : Confined fam (.thread value thread) w
      (w.obtain fam value thread (.thread value thread) os idx).1 :=
    World.obtain_confined
  rw [World.allocateForCache_eq]
  generalize w.obtain fam value thread (.thread value thread) os idx = outcome
    at obtained confined ⊢
  obtain ⟨w₁, exn | raw⟩ := outcome
  · exact obtained.cacheBounded bounded
  dsimp only at obtained confined ⊢
  split
  · exact obtained.cacheBounded bounded
  unfold World.refillAndHandOut
  split
  · obtain ⟨middle, after, thins⟩ := obtained
    -- What is still in the list was no run of the thread's own before.
    have noOwnNow : middle.cachedIn value thread idx ⊆
        middle.foreignIn value thread idx := by
      intro q here
      obtain ⟨old, owners⟩ := thins q value thread idx here
      exact ⟨here, fun own => (noOwn old).2 ((owners _).mp own)⟩
    obtain ⟨next, done, gains⟩ := after.refill_gains
      (by rw [confined.created]; exact created)
      (fun i => by rw [confined.others]; exact avoids i) inClasses
      (tlsRefillBatch - 1)
    have within := gains.bounded (thins.bounded bounded) noOwnNow
    generalize World.refill fam value thread (.thread value thread) os idx
      (tlsRefillBatch - 1) w₁ = result at done ⊢
    obtain ⟨w₂, exn | done'⟩ := result
    · exact ⟨live, next, done, within⟩
    · exact ⟨live, next, done, within⟩
  · exact obtained.cacheBounded bounded

theorem allocateFromTlsRunCache_bounded (bounded : ledger.Bounded)
    {w₀ : World Value Thread Bound}
    (resolution : w₀.runsPtr fam a thread env.room =
      (w, .ok (.thread value thread)))
    (avoids : ∀ i, (env.os i).Avoids
      (w.others fam (.runs (.thread value thread))))
    (created : w.created (.thread value thread) = true)
    (positive : 0 < bytes) (cutoff : bytes ≤ tlsRunCutoff) :
    (w₀.allocateFromTlsRunCache fam a thread env bytes).1.CacheBounded fam := by
  obtain ⟨inClasses, _⟩ := tlsClass_spec positive cutoff
  unfold World.allocateFromTlsRunCache
  rw [resolution]
  dsimp only
  generalize tlsClassIndexFor bytes = idx at *
  obtain ⟨entries, cls⟩ := ok.classes value thread idx
  have popped : Popped fam w live ledger (fam.runsAt (.thread value thread))
      entries (w.tlsPopForOwner value thread idx
        (fam.runsAt (.thread value thread))) := ok.tlsPopForOwner cls
  generalize w.tlsPopForOwner value thread idx
    (fam.runsAt (.thread value thread)) = result at *
  cases popped with
  | nothing without =>
      dsimp only
      rw [if_neg (by simp)]
      refine ok.allocateForCache_bounded bounded ?_ created avoids inClasses
      intro q here
      refine ⟨here, fun own => ?_⟩
      exact without q ((cls.place q).mpr here) ((ok.cached_hasRun here _).mp own)
  | @entry w' q listed stamp states created' popped =>
      dsimp only
      rw [if_pos (cls.chain.ne_zero q listed)]
      exact ⟨live, _, popped,
        (Ledger.thins_settle (by simp)).bounded bounded⟩

theorem allocate_bounded (bounded : ledger.Bounded) (thread : Thread)
    (usable : a.Usable w) (avoids : env.Avoids (w.inUse fam)) (n : Nat) :
    (w.allocate fam a thread env n).1.CacheBounded fam := by
  unfold World.allocate
  split
  · exact ⟨live, ledger, ok, bounded⟩
  split
  · exact ⟨live, ledger, ok, bounded⟩
  rename_i small
  split
  · rename_i one
    exact (ok.allocateNode_thinned usable avoids (by omega)).cacheBounded bounded
  have fits : n ≤ fam.maxSize value := by omega
  have product := Family.le_maxSize_iff.mp fits
  have multiplied : checkedMul n (fam.sizeOf value) =
      .some (n * fam.sizeOf value) :=
    checkedMul_eq_some.mpr ⟨product, rfl⟩
  have positive : 0 < n * fam.sizeOf value :=
    Nat.mul_pos (by omega) (fam.sizePositive value)
  rw [multiplied]
  dsimp only
  split
  · rename_i cached
    obtain ⟨own, cutoff⟩ := a.canUse_spec cached thread
    have resolution := ok.runsPtr thread env.room usable
    cases result : w.runsPtr fam a thread env.room with
    | mk w₁ result' =>
      rw [result] at resolution
      obtain ⟨⟨resolved, same, made⟩, found⟩ := resolution
      dsimp only at resolved same made found
      cases result' with
      | error exn =>
          have thrown : w.allocateFromTlsRunCache fam a thread env
              (n * fam.sizeOf value) = (w₁, .error exn) := by
            unfold World.allocateFromTlsRunCache
            rw [result]
          rw [thrown]
          exact ⟨live, ledger, resolved, bounded⟩
      | ok site =>
        have here := found site rfl
        have created := made ⟨site, rfl⟩
        rw [own] at here created
        subst here
        have quiet : ∀ i, (env.os i).Avoids
            (w₁.others fam (.runs (.thread value thread))) := fun i => by
          rw [same.others]
          exact avoids.others _ i
        have outcome := resolved.allocateFromTlsRunCache result quiet created
          positive cutoff
        have within := resolved.allocateFromTlsRunCache_bounded bounded result
          quiet created positive cutoff
        generalize w.allocateFromTlsRunCache fam a thread env
          (n * fam.sizeOf value) = served at outcome within ⊢
        cases outcome with
        | given nonnull =>
            dsimp only
            unfold World.allocateRest
            rw [if_pos nonnull]
            exact within
        | @null w₂ next ok' served created' confined intact =>
            dsimp only
            unfold World.allocateRest
            rw [if_neg (by simp)]
            have quietNow : (env.os 5).Avoids
                (w₂.others fam (.runs (a.siteOn thread))) := by
              rw [own, confined.others]
              exact quiet 5
            have last := ok'.allocateRun_thinned env.room
              (a.usable_of_canUse cached w₂) quietNow product
            exact last.cacheBounded (within.bounded ok')
        | throws => exact within
  · unfold World.allocateRest
    rw [if_neg (by simp)]
    have last := ok.allocateRun_thinned env.room usable
      (avoids.others (.runs (a.siteOn thread)) 5) product
    exact last.cacheBounded bounded

end WorldOk

omit [DecidableEq Value] [DecidableEq Thread] [DecidableEq Bound] in
/-- A run enters a class list that is short of the watermark. -/
theorem Ledger.Bounded.settle (bounded : ledger.Bounded)
    (short : (ledger.cachedIn value thread idx).encard ≤
      (tlsHighWatermark - 1 : Nat)) :
    (ledger.settle p (.cached value thread idx)).Bounded := by
  have here : ((ledger.settle p (.cached value thread idx)).cachedIn value thread
      idx).encard ≤ tlsHighWatermark := by
    calc _ ≤ (insert p (ledger.cachedIn value thread idx)).encard :=
          Set.encard_le_encard Ledger.cachedIn_settle
      _ ≤ (ledger.cachedIn value thread idx).encard + 1 :=
          Set.encard_insert_le _ _
      _ ≤ (tlsHighWatermark - 1 : Nat) + 1 := add_le_add_left short 1
      _ = tlsHighWatermark := by norm_num
  constructor
  · intro value' thread' idx'
    by_cases same : value' = value ∧ thread' = thread ∧ idx' = idx
    · obtain ⟨rfl, rfl, rfl⟩ := same
      exact (Set.encard_le_encard fun _ listed => listed.1).trans here
    · refine le_trans (Set.encard_le_encard ?_)
        (bounded.foreign value' thread' idx')
      rintro q ⟨listed, foreign⟩
      exact ⟨Ledger.cachedIn_settle_of_ne same listed, foreign⟩
  · intro value' thread' idx'
    by_cases same : value' = value ∧ thread' = thread ∧ idx' = idx
    · obtain ⟨rfl, rfl, rfl⟩ := same
      exact here.trans (Nat.cast_le.mpr (by decide))
    · exact (Set.encard_le_encard (Ledger.cachedIn_settle_of_ne same)).trans
        (bounded.whole value' thread' idx')

namespace WorldOk

theorem drainedForPush_count (ok : WorldOk fam w live ledger) (value : Value)
    (thread : Thread) (idx : Nat) :
    ((w.drainedForPush fam value thread idx).classes value thread idx).count ≤
      tlsHighWatermark - 1 := by
  obtain ⟨entries, cls⟩ := ok.classes value thread idx
  unfold World.drainedForPush
  split
  · obtain ⟨_, count, _⟩ := ok.tlsDrainClass_exact cls tlsDrainLowWatermark
    rw [count]
    exact (Nat.min_le_right _ _).trans (by decide)
  · omega

theorem deallocate_bounded (ok : WorldOk fam w live ledger)
    (bounded : ledger.Bounded) {item : Item fam} {b : Handle fam item.value}
    {m : Nat} (member : item ∈ live) (equal : b.Equal item.handle)
    (lower : item.requested ≤ m) (upper : m ≤ item.count) :
    (w.deallocate fam b thread item.ptr m).CacheBounded fam := by
  have given := ok.takeBack member
  have loose : (ledger.settle item.ptr .adrift).place item.ptr = some .adrift :=
    Ledger.settle_self .adrift
  have within : (ledger.settle item.ptr .adrift).Bounded :=
    (Ledger.thins_settle (by simp)).bounded bounded
  have frees : Frees fam w ledger item.value thread item.ptr
      (w.deallocate fam b thread item.ptr m) :=
    ok.deallocate_frees member equal lower upper
  generalize w.deallocate fam b thread item.ptr m = w' at frees ⊢
  cases frees with
  | node node =>
      exact ⟨_, _, given.deallocateNode node loose,
        Ledger.thins_giveBackNode.bounded within⟩
  | parkNode node headers =>
      exact ⟨_, _, given.parkNode node loose headers,
        Ledger.thins_giveBackNode.bounded within⟩
  | run run =>
      exact ⟨_, _, given.deallocateBytes run loose,
        (given.giveBack_returned run).thins.bounded within⟩
  | parkRun run =>
      exact ⟨_, _, given.remotePush run loose,
        (given.giveBack_returned run).thins.bounded within⟩
  | @cache owner allocation idx listed payload inClasses enough =>
      rw [← payload] at loose given within ⊢
      obtain ⟨gone, next, returned, _, _, drained, pushed⟩ :=
        given.drainAndPush listed loose enough thread
      refine ⟨_, _, pushed, (returned.thins.bounded within).settle ?_⟩
      obtain ⟨entries, cls⟩ := drained.classes item.value thread idx
      have count := given.drainedForPush_count item.value thread idx
      rw [cls.encard, ← cls.count]
      exact_mod_cast count

theorem expand_bounded (ok : WorldOk fam w live ledger)
    (bounded : ledger.Bounded) {item : Item fam} {b : Handle fam item.value}
    {minNewBytes : Nat} (member : item ∈ live) (equal : b.Equal item.handle)
    (word : minNewBytes < 2 ^ 64) :
    (w.expand fam b thread item.ptr minNewBytes).1.CacheBounded fam := by
  rcases ok.expand_cases member equal minNewBytes with same | ⟨site, run, same⟩
  · rw [same]
    exact ⟨live, ledger, ok, bounded⟩
  · rw [same]
    obtain ⟨runs, owners, after⟩ := ok.expandRun run word
    have thins : ledger.Thins (ledger.setRuns site runs ledger.place) :=
      fun p _ _ _ here => ⟨here, fun owner => owners owner p⟩
    exact ⟨live, _, after, thins.bounded bounded⟩

end WorldOk

omit [DecidableEq Value] [DecidableEq Thread] [DecidableEq Bound] in
theorem Ledger.blank_bounded :
    (Ledger.blank : Ledger Value Thread Bound).Bounded := by
  have empty : ∀ value thread idx, (Ledger.blank : Ledger Value Thread
      Bound).cachedIn value thread idx = ∅ := fun value thread idx =>
    Set.eq_empty_of_forall_notMem fun p here => by cases here
  constructor
  · intro value thread idx
    refine le_trans (Set.encard_le_encard fun _ listed => listed.1) ?_
    rw [empty, Set.encard_empty]
    exact zero_le
  · intro value thread idx
    rw [empty, Set.encard_empty]
    exact zero_le

theorem SessionOk.call_bounded (ok : SessionOk session ledger)
    (bounded : ledger.Bounded) {operation : Operation fam}
    (allowed : session.Allows operation) :
    (session.perform operation).world.CacheBounded fam := by
  cases operation with
  | construct state heap os arguments =>
      obtain ⟨missing, allowed⟩ := allowed
      exact ⟨_, ledger, ok.world.construct missing allowed, bounded⟩
  | allocate a thread env n =>
      obtain ⟨_, usable, avoids, _⟩ := allowed
      rw [Session.perform_allocate]
      have within := ok.world.allocate_bounded bounded thread usable avoids n
      generalize session.world.allocate fam a thread env n = result at within ⊢
      obtain ⟨w, exn | p⟩ := result <;> exact within
  | @allocateAtLeast value a thread env n =>
      obtain ⟨_, usable, avoids, _⟩ := allowed
      by_cases none : n = 0
      · subst none
        rw [Session.perform_allocateAtLeast_zero]
        exact ⟨_, ledger, ok.world, bounded⟩
      · rw [Session.perform_allocateAtLeast none]
        have within := ok.world.allocate_bounded bounded thread usable avoids
          (World.growthCount fam value n)
        generalize session.world.allocate fam a thread env _ = result at within ⊢
        obtain ⟨w, exn | p⟩ := result <;> exact within
  | deallocate item b thread m =>
      obtain ⟨_, member, equal, lower, upper⟩ := allowed
      exact ok.world.deallocate_bounded bounded member equal lower upper
  | expand item b thread minNewBytes =>
      obtain ⟨_, member, equal, word⟩ := allowed
      exact ok.world.expand_bounded bounded member equal word
  | exit value thread =>
      obtain ⟨gone, next, returned, after, _⟩ :=
        ok.world.destroyCache value thread
      rw [Session.perform_exit]
      generalize session.world.destroyCache fam value thread = w at after ⊢
      exact ⟨_, next, after, returned.thins.bounded bounded⟩

/-- The class lists are within their bounds in every session. -/
theorem bounded_inductive :
    (sessions fam).Inductive fun session =>
      ∃ ledger, SessionOk session ledger ∧ ledger.Bounded where
  start session starts := by
    obtain ⟨mem, rfl⟩ := starts
    exact ⟨.blank, ⟨worldOk_initial mem, by simp [Ledger.blank]⟩,
      Ledger.blank_bounded⟩
  step session session' := by
    rintro ⟨ledger, ok, bounded⟩ step
    cases step with
    | call operation allowed =>
        obtain ⟨next, after, _⟩ := ok.call allowed
        exact ⟨next, after, (ok.call_bounded bounded allowed).bounded after.world⟩
    | store addr value writable =>
        exact ⟨ledger, ok.store value writable, bounded⟩
    | elsewhere addr value unused =>
        exact ⟨ledger, ok.elsewhere value unused, bounded⟩

/-- In every session, the count of a class is the length of its list and never
more than the high watermark and what one refill adds; a pop by owner takes off
the first entry of that owner, and the others keep their order; and a drain comes
to its end with as many entries as asked for, if there were as many. -/
theorem run_cache_bounded
    (reachable : (sessions fam).Reachable session) (value : Value)
    (thread : Thread) (idx : Nat) :
    ∃ entries, IsStack session.world.mem
        (session.world.classes value thread idx).head entries ∧
      (session.world.classes value thread idx).count = entries.length ∧
      entries.length ≤ tlsHighWatermark + tlsRefillBatch - 1 ∧
      (∀ owner, TakesFirst session.world value thread idx owner entries
        (session.world.tlsPopForOwner value thread idx owner)) ∧
      ∀ keepCount,
        (∀ fuel, entries.length ≤ fuel →
          World.tlsDrainWalk fam value thread idx keepCount fuel session.world =
            session.world.tlsDrainClass fam value thread idx keepCount) ∧
        ∃ left, IsStack
            (session.world.tlsDrainClass fam value thread idx keepCount).mem
            ((session.world.tlsDrainClass fam value thread idx
              keepCount).classes value thread idx).head left ∧
          ((session.world.tlsDrainClass fam value thread idx
            keepCount).classes value thread idx).count = left.length ∧
          left.length = min entries.length keepCount := by
  obtain ⟨ledger, ok, bounded⟩ := bounded_inductive.reachable reachable
  obtain ⟨entries, cls⟩ := ok.world.classes value thread idx
  refine ⟨entries, cls.chain, cls.count, ?_,
    fun owner => ok.world.tlsPopForOwner_first cls owner, fun keepCount => ?_⟩
  · have whole := bounded.whole value thread idx
    rw [cls.encard] at whole
    exact_mod_cast whole
  · obtain ⟨chain, count, ended⟩ := ok.world.tlsDrainClass_exact cls keepCount
    refine ⟨ended, _, chain, ?_, ?_⟩
    · rw [count, List.length_drop]
      omega
    · rw [List.length_drop]
      omega

/-- The refill has put three runs into the class list. -/
theorem stockedSession_bounded :
    (stockedSession.world.classes false false 0).count = 3 ∧
      ∃ entries, IsStack stockedSession.world.mem
          (stockedSession.world.classes false false 0).head entries ∧
        (stockedSession.world.classes false false 0).count = entries.length ∧
        entries.length ≤ 35 := by
  refine ⟨stockedSession_served.1, ?_⟩
  obtain ⟨entries, chain, count, bounded, _⟩ :=
    run_cache_bounded stockedSession_reachable false false 0
  exact ⟨entries, chain, count, bounded⟩

end Suballocated

end Allocazam
