import Allocazam.SuballocatedClassLists
import Allocazam.SuballocatedSafety
import Mathlib.Data.Set.Card

/-!
# Bounds of the run cache

No class list outgrows the high watermark by more than a refill.  A refill does
not look at the length of the list, but it only happens while the list has no
runs of the thread's own runner, and of the runs of other threads there are
never more than the high watermark.
-/

namespace Allocazam

namespace Suballocated

variable {Value Thread Bound : Type} {fam : Family Value Thread Bound}
  {w w' : World Value Thread Bound} {live live' : List (Item fam)}
  {ledger middle next : Ledger Value Thread Bound}
  {site : Site Value Thread Bound} {value : Value} {thread : Thread}
  {idx p bytes n : Nat} {a : Handle fam value} {env : Environment}

namespace Ledger

def cachedIn (ledger : Ledger Value Thread Bound) (value : Value)
    (thread : Thread) (idx : Nat) : Set Nat :=
  {p | ledger.place p = some (.cached value thread idx)}

/-- The runs in a class list that are not from the thread's own runner. -/
def foreignIn (ledger : Ledger Value Thread Bound) (value : Value)
    (thread : Thread) (idx : Nat) : Set Nat :=
  {p ∈ ledger.cachedIn value thread idx |
    ¬ ledger.HasRun (.thread value thread) p}

/-- A class list has at most the high watermark of runs of other threads, and
what one refill adds. -/
structure Bounded (ledger : Ledger Value Thread Bound) : Prop where
  foreign : ∀ value thread idx,
    (ledger.foreignIn value thread idx).encard ≤ tlsHighWatermark
  whole : ∀ value thread idx, (ledger.cachedIn value thread idx).encard ≤
    (tlsHighWatermark + tlsRefillBatch - 1 : Nat)

/-- No class list gains a run, and the runs that stay have the owners they
had. -/
def Thins (ledger next : Ledger Value Thread Bound) : Prop :=
  ∀ p value thread idx, next.place p = some (.cached value thread idx) →
    ledger.place p = some (.cached value thread idx) ∧
      ∀ site, next.HasRun site p ↔ ledger.HasRun site p

namespace Thins

theorem refl (ledger : Ledger Value Thread Bound) : Thins ledger ledger :=
  fun _ _ _ _ here => ⟨here, fun _ => Iff.rfl⟩

theorem trans (first : Thins ledger middle) (second : Thins middle next) :
    Thins ledger next := by
  intro p value thread idx here
  obtain ⟨before, owners⟩ := second p value thread idx here
  obtain ⟨old, oldOwners⟩ := first p value thread idx before
  exact ⟨old, fun site => (owners site).trans (oldOwners site)⟩

variable (thins : Thins ledger next)

include thins

theorem cachedIn : next.cachedIn value thread idx ⊆
    ledger.cachedIn value thread idx :=
  fun p here => (thins p value thread idx here).1

theorem foreignIn : next.foreignIn value thread idx ⊆
    ledger.foreignIn value thread idx := by
  rintro p ⟨here, foreign⟩
  obtain ⟨old, owners⟩ := thins p value thread idx here
  exact ⟨old, fun own => foreign ((owners _).mpr own)⟩

theorem bounded (bounded : ledger.Bounded) : next.Bounded where
  foreign value thread idx :=
    (Set.encard_le_encard thins.foreignIn).trans
      (bounded.foreign value thread idx)
  whole value thread idx :=
    (Set.encard_le_encard thins.cachedIn).trans (bounded.whole value thread idx)

end Thins

/-- A pointer leaves its class list, or was in none and enters none. -/
theorem thins_settle {x : Place Value Thread}
    (uncached : ∀ value thread idx, x ≠ .cached value thread idx) :
    Thins ledger (ledger.settle p x) := by
  intro q value thread idx here
  by_cases moved : q = p
  · subst moved
    rw [settle_self] at here
    exact absurd (Option.some.inj here) (uncached value thread idx)
  · rw [settle_of_ne _ moved] at here
    exact ⟨here, fun _ => Iff.rfl⟩

theorem Returned.thins {gone : List Nat}
    (returned : Ledger.Returned gone ledger next) : Thins ledger next := by
  intro p value thread idx here
  have spared : p ∉ gone := by
    intro listed
    rw [returned.freed p listed] at here
    cases here
  rw [returned.kept p spared] at here
  refine ⟨here, fun site => ?_⟩
  constructor
  · rintro ⟨allocation, member, payload⟩
    exact ⟨allocation, ((returned.runs site allocation).mp member).1, payload⟩
  · rintro ⟨allocation, member, payload⟩
    exact ⟨allocation, (returned.runs site allocation).mpr
      ⟨member, by rw [payload]; exact spared⟩, payload⟩

end Ledger

/-- The runner that a cached run is from, told by its stamp. -/
theorem WorldOk.cached_hasRun (ok : WorldOk fam w live ledger)
    (cached : ledger.place p = some (.cached value thread idx))
    (site : Site Value Thread Bound) :
    ledger.HasRun site p ↔ w.mem (p + 8) = fam.runsAt site := by
  obtain ⟨entries, cls⟩ := ok.classes value thread idx
  obtain ⟨owner, allocation, member, payload, _, stamp⟩ :=
    cls.entry p ((cls.place p).mpr cached)
  have run : ledger.HasRun (.thread value owner) p :=
    ⟨allocation, member, payload⟩
  constructor
  · intro again
    rw [stamp, ok.run_unique run again]
  · intro same
    rw [← Family.owner_of_stamp (stamp.symm.trans same)]
    exact run

theorem WorldOk.thins (ok : WorldOk fam w live ledger)
    (again : WorldOk fam w live' next) : ledger.Thins next := by
  intro p value thread idx here
  obtain ⟨entries, cls⟩ := ok.classes value thread idx
  obtain ⟨entries', cls'⟩ := again.classes value thread idx
  obtain rfl := cls.chain.unique cls'.chain
  have old := (cls.place p).mp ((cls'.place p).mpr here)
  exact ⟨old, fun site => (again.cached_hasRun here site).trans
    (ok.cached_hasRun old site).symm⟩

def World.CacheBounded (fam : Family Value Thread Bound)
    (w : World Value Thread Bound) : Prop :=
  ∃ (live : List (Item fam)) (ledger : Ledger Value Thread Bound),
    WorldOk fam w live ledger ∧ ledger.Bounded

theorem World.CacheBounded.bounded (bounds : w.CacheBounded fam)
    (ok : WorldOk fam w live ledger) : ledger.Bounded := by
  obtain ⟨_, _, again, bounded⟩ := bounds
  exact (again.thins ok).bounded bounded

/-- A class list has as many entries as runs. -/
theorem ClassOk.encard {entries : List Nat}
    (cls : ClassOk fam w ledger value thread idx entries) :
    (ledger.cachedIn value thread idx).encard = entries.length := by
  have same : ledger.cachedIn value thread idx = entries.toFinset := by
    apply Set.ext
    intro p
    rw [Finset.mem_coe, List.mem_toFinset, cls.place p]
    exact Iff.rfl
  rw [same, Set.encard_coe_eq_coe_finsetCard,
    List.toFinset_card_of_nodup cls.chain.nodup]

/-- The world is in order again, and no class list has gained a run since. -/
def Thinned (fam : Family Value Thread Bound) (live : List (Item fam))
    (ledger : Ledger Value Thread Bound) (w' : World Value Thread Bound) : Prop :=
  ∃ next, WorldOk fam w' live next ∧ ledger.Thins next

namespace Thinned

theorem before (thins : ledger.Thins middle)
    (thinned : Thinned fam live middle w') : Thinned fam live ledger w' := by
  obtain ⟨next, ok, later⟩ := thinned
  exact ⟨next, ok, thins.trans later⟩

theorem cacheBounded (thinned : Thinned fam live ledger w')
    (bounded : ledger.Bounded) : w'.CacheBounded fam := by
  obtain ⟨next, ok, thins⟩ := thinned
  exact ⟨live, next, ok, thins.bounded bounded⟩

end Thinned

variable [DecidableEq Value] [DecidableEq Thread] [DecidableEq Bound]

namespace Ledger

theorem thins_acquireNode :
    Thins ledger (ledger.acquireNode site p) := by
  intro q value thread idx here
  by_cases moved : q = p
  · subst moved
    have adrift : (ledger.acquireNode site q).place q = some .adrift :=
      Function.update_self _ _ _
    rw [adrift] at here
    cases here
  · exact ⟨(Function.update_of_ne moved _ _).symm.trans here, fun _ => Iff.rfl⟩

theorem thins_giveBackNode : Thins ledger (ledger.giveBackNode site p) := by
  intro q value thread idx here
  by_cases moved : q = p
  · subst moved
    have gone : (ledger.giveBackNode site q).place q = none :=
      Function.update_self _ _ _
    rw [gone] at here
    cases here
  · exact ⟨(Function.update_of_ne moved _ _).symm.trans here, fun _ => Iff.rfl⟩

theorem hasRun_acquire {other : Site Value Thread Bound} {q : Nat}
    (moved : q ≠ p) :
    (ledger.acquire site p bytes).HasRun other q ↔ ledger.HasRun other q := by
  unfold acquire HasRun
  by_cases own : other = site
  · subst own
    rw [setRuns_self]
    simp [Ne.symm moved]
  · rw [setRuns_of_ne _ _ own]

theorem thins_acquire : Thins ledger (ledger.acquire site p bytes) := by
  intro q value thread idx here
  by_cases moved : q = p
  · subst moved
    have adrift : (ledger.acquire site q bytes).place q = some .adrift :=
      Function.update_self _ _ _
    rw [adrift] at here
    cases here
  · exact ⟨(Function.update_of_ne moved _ _).symm.trans here,
      fun _ => hasRun_acquire moved⟩

theorem thins_afterAllocation (result : Except Exn Nat) :
    Thins ledger (ledger.afterAllocation site bytes result) := by
  cases result with
  | error exn => exact .refl ledger
  | ok p =>
      unfold afterAllocation
      dsimp only
      split
      · exact .refl ledger
      · exact thins_acquire

theorem thins_afterNode (result : Except Exn Nat) :
    Thins ledger (ledger.afterNode site result) := by
  cases result with
  | error exn => exact .refl ledger
  | ok p =>
      unfold afterNode
      dsimp only
      split
      · exact .refl ledger
      · exact thins_acquireNode

end Ledger

namespace WorldOk

variable (ok : WorldOk fam w live ledger)

include ok

theorem allocateBytes_thinned {os : Runner.Os} (alignment : Nat)
    (created : w.created site = true)
    (avoids : os.Avoids (w.others fam (.runs site))) (word : bytes < 2 ^ 64) :
    Thinned fam live ledger
      (w.allocateBytes fam site os bytes alignment).1 :=
  ⟨_, (ok.allocateBytes alignment created avoids word).1,
    Ledger.thins_afterAllocation _⟩

theorem allocateRun_thinned {os : Runner.Os} (room : Bool) (usable : a.Usable w)
    (avoids : os.Avoids (w.others fam (.runs (a.siteOn thread))))
    (word : bytes < 2 ^ 64) :
    Thinned fam live ledger (w.allocateRun fam a thread room os bytes).1 := by
  obtain ⟨⟨resolved, same, made⟩, found⟩ := ok.runsPtr thread room usable
  unfold World.allocateRun
  generalize w.runsPtr fam a thread room = outcome at *
  obtain ⟨w₁, exn | other⟩ := outcome
  · exact ⟨ledger, resolved, .refl ledger⟩
  obtain rfl := found other rfl
  have created := made ⟨_, rfl⟩
  dsimp only at resolved same created ⊢
  have quiet : os.Avoids (w₁.others fam (.runs (a.siteOn thread))) := by
    rw [same.others]
    exact avoids
  have given : Thinned fam live ledger (w₁.allocateBytes fam (a.siteOn thread) os
      bytes (fam.alignOf value)).1 :=
    resolved.allocateBytes_thinned (fam.alignOf value) created quiet word
  generalize w₁.allocateBytes fam (a.siteOn thread) os bytes
    (fam.alignOf value) = result at given ⊢
  obtain ⟨w₂, exn | raw⟩ := result
  · exact given
  · dsimp only at given ⊢
    split <;> exact given

theorem allocateNode_thinned (usable : a.Usable w)
    (avoids : env.Avoids (w.inUse fam)) (bounded : 1 ≤ fam.maxSize value) :
    Thinned fam live ledger (w.allocateNode fam a thread env).1 := by
  have allocated := ok.allocState thread env.room usable
  unfold World.allocateNode
  cases resolution : w.allocState fam a thread env.room with
  | mk w₁ result =>
    rw [resolution] at allocated
    obtain ⟨⟨resolved, same, made⟩, found⟩ := allocated
    dsimp only at resolved same made found ⊢
    cases result with
    | error exn => exact ⟨ledger, resolved, .refl ledger⟩
    | ok target =>
      have created := made ⟨target, rfl⟩
      by_cases unpooled : a.mode = .runsOverride
      · obtain rfl := (found target rfl).trans (if_pos unpooled)
        have word : fam.sizeOf value < 2 ^ 64 := by
          have product := Family.le_maxSize_iff.mp bounded
          omega
        have usableNow : a.Usable w₁ := fun site bound =>
          same.created site (usable site bound)
        have quiet : (env.os 0).Avoids
            (w₁.others fam (.runs (a.siteOn thread))) := by
          rw [same.others]
          exact avoids.others _ 0
        exact resolved.allocateRun_thinned env.room usableNow quiet word
      · obtain rfl := (found target rfl).trans (if_neg unpooled)
        have heapAvoids : ∀ addr ∈ w₁.inUse fam, env.heap.inUse addr := by
          rw [same.inUse]
          exact avoids.heap
        obtain ⟨after, _⟩ := resolved.allocateNode created heapAvoids
        dsimp only
        generalize (w₁.pool (a.siteOn thread)).allocate
          (fam.poolConfig (a.siteOn thread)) env.heap = outcome at *
        have thins : ledger.Thins (ledger.afterNode (a.siteOn thread) outcome.2) :=
          Ledger.thins_afterNode outcome.2
        obtain ⟨s, exn | p⟩ := outcome
        · exact ⟨_, after, thins⟩
        · dsimp only at after ⊢
          split <;> exact ⟨_, after, thins⟩

end WorldOk

namespace Ledger

/-- One class list gains a number of runs at most, all of them from the thread's
own runner. -/
structure Gains (value : Value) (thread : Thread) (idx count : Nat)
    (ledger next : Ledger Value Thread Bound) : Prop where
  foreign : ∀ value' thread' idx',
    next.foreignIn value' thread' idx' ⊆ ledger.foreignIn value' thread' idx'
  others : ∀ value' thread' idx',
    ¬ (value' = value ∧ thread' = thread ∧ idx' = idx) →
      next.cachedIn value' thread' idx' ⊆ ledger.cachedIn value' thread' idx'
  here : (next.cachedIn value thread idx).encard ≤
    (ledger.cachedIn value thread idx).encard + count

omit [DecidableEq Value] [DecidableEq Thread] [DecidableEq Bound] in
theorem Thins.gains (thins : Thins ledger next) (count : Nat) :
    Gains value thread idx count ledger next where
  foreign _ _ _ := thins.foreignIn
  others _ _ _ _ := thins.cachedIn
  here := (Set.encard_le_encard thins.cachedIn).trans le_self_add

omit [DecidableEq Value] [DecidableEq Thread] [DecidableEq Bound] in
theorem Gains.trans {first second : Nat}
    (one : Gains value thread idx first ledger middle)
    (two : Gains value thread idx second middle next) :
    Gains value thread idx (second + first) ledger next where
  foreign value' thread' idx' :=
    (two.foreign value' thread' idx').trans (one.foreign value' thread' idx')
  others value' thread' idx' distinct :=
    (two.others value' thread' idx' distinct).trans
      (one.others value' thread' idx' distinct)
  here := by
    calc (next.cachedIn value thread idx).encard
        ≤ (middle.cachedIn value thread idx).encard + second := two.here
      _ ≤ (ledger.cachedIn value thread idx).encard + first + second :=
          add_le_add_left one.here _
      _ = (ledger.cachedIn value thread idx).encard + (second + first : Nat) := by
          rw [add_assoc, Nat.cast_add, add_comm (first : ℕ∞)]

omit [DecidableEq Value] [DecidableEq Thread] [DecidableEq Bound] in
theorem cachedIn_settle : (ledger.settle p (.cached value thread idx)).cachedIn
    value thread idx ⊆ insert p (ledger.cachedIn value thread idx) := by
  intro q here
  by_cases moved : q = p
  · exact Or.inl moved
  · exact Or.inr ((settle_of_ne _ moved).symm.trans here)

omit [DecidableEq Value] [DecidableEq Thread] [DecidableEq Bound] in
/-- The other class lists have no more entries than before. -/
theorem cachedIn_settle_of_ne {value' : Value} {thread' : Thread} {idx' : Nat}
    (distinct : ¬ (value' = value ∧ thread' = thread ∧ idx' = idx)) :
    (ledger.settle p (.cached value thread idx)).cachedIn value' thread' idx' ⊆
      ledger.cachedIn value' thread' idx' := by
  intro q here
  by_cases moved : q = p
  · subst moved
    have same : (some (.cached value thread idx) : Option (Place Value Thread)) =
        some (.cached value' thread' idx') := (settle_self _).symm.trans here
    cases same
    exact absurd ⟨rfl, rfl, rfl⟩ distinct
  · exact (settle_of_ne _ moved).symm.trans here

theorem gains_stock : Gains value thread idx 1 ledger
    ((ledger.acquire (.thread value thread) p bytes).settle p
      (.cached value thread idx)) where
  foreign value' thread' idx' := by
    rintro q ⟨here, foreign⟩
    by_cases moved : q = p
    · subst moved
      refine absurd ?_ foreign
      have same : (some (.cached value thread idx) :
          Option (Place Value Thread)) = some (.cached value' thread' idx') :=
        (settle_self _).symm.trans here
      cases same
      refine ⟨⟨q, bytes, 0⟩, ?_, rfl⟩
      unfold acquire
      show _ ∈ (ledger.setRuns _ _ _).runs _
      rw [setRuns_self]
      exact List.mem_cons_self
    · refine ⟨?_, fun own => foreign ((hasRun_acquire moved).mpr own)⟩
      exact ((Function.update_of_ne moved _ _).symm.trans
        ((settle_of_ne _ moved).symm.trans here) :)
  others value' thread' idx' distinct :=
    (cachedIn_settle_of_ne distinct).trans thins_acquire.cachedIn
  here := by
    calc _ ≤ (insert p ((ledger.acquire (.thread value thread) p bytes).cachedIn
          value thread idx)).encard := Set.encard_le_encard cachedIn_settle
      _ ≤ ((ledger.acquire (.thread value thread) p bytes).cachedIn value thread
          idx).encard + 1 := Set.encard_insert_le _ _
      _ ≤ (ledger.cachedIn value thread idx).encard + (1 : Nat) :=
          add_le_add_left (Set.encard_le_encard thins_acquire.cachedIn) _

end Ledger

namespace WorldOk

/-- The refill loop puts as many runs into the class list as it has rounds at
most. -/
theorem refill_gains (ok : WorldOk fam w live ledger) {os : Nat → Runner.Os}
    (created : w.created (.thread value thread) = true)
    (avoids : ∀ i, (os i).Avoids (w.others fam (.runs (.thread value thread))))
    (bounded : idx < tlsRunClassCount) (rounds : Nat) :
    ∃ next, WorldOk fam (World.refill fam value thread (.thread value thread) os
        idx rounds w).1 live next ∧
      Ledger.Gains value thread idx rounds ledger next := by
  induction rounds generalizing w ledger with
  | zero => exact ⟨ledger, ok, (Ledger.Thins.refl ledger).gains 0⟩
  | succ rounds ih =>
      obtain ⟨after, _⟩ := ok.allocateBytes (fam.alignOf value) created
        (avoids (rounds + 2)) (tlsClassBytes_lt bounded)
      have confined : Confined fam (.thread value thread) w _ :=
        allocateBytes_confined (os (rounds + 2)) (tlsClassBytes idx)
          (fam.alignOf value)
      unfold World.refill
      generalize w.allocateBytes fam (.thread value thread) (os (rounds + 2))
        (tlsClassBytes idx) (fam.alignOf value) = outcome at *
      obtain ⟨w', exn | extra⟩ := outcome
      · exact ⟨ledger, after, (Ledger.Thins.refl ledger).gains _⟩
      · dsimp only at after confined ⊢
        unfold Ledger.afterAllocation at after
        dsimp only at after
        split
        · rename_i null
          rw [if_pos null] at after
          exact ⟨ledger, after, (Ledger.Thins.refl ledger).gains _⟩
        · rename_i nonnull
          rw [if_neg nonnull] at after
          have quiet : Confined fam (.thread value thread) w
              (w'.tlsPush value thread idx extra
                (fam.runsAt (.thread value thread))) :=
            confined.trans (.of_states rfl rfl)
          obtain ⟨next, done, gains⟩ := ih after.stock
            (by rw [quiet.created]; exact created)
            (fun i => by rw [quiet.others]; exact avoids i)
          exact ⟨next, done, Ledger.gains_stock.trans gains⟩

theorem obtain_thinned (ok : WorldOk fam w live ledger) {os : Nat → Runner.Os}
    (created : w.created (.thread value thread) = true)
    (avoids : ∀ i, (os i).Avoids (w.others fam (.runs (.thread value thread))))
    (bounded : idx < tlsRunClassCount) :
    Thinned fam live ledger
      (w.obtain fam value thread (.thread value thread) os idx).1 := by
  have word := tlsClassBytes_lt bounded
  have first : Thinned fam live ledger (w.allocateBytes fam
      (.thread value thread) (os 0) (tlsClassBytes idx) (fam.alignOf value)).1 :=
    ok.allocateBytes_thinned (fam.alignOf value) created (avoids 0) word
  have confined : Confined fam (.thread value thread) w (w.allocateBytes fam
      (.thread value thread) (os 0) (tlsClassBytes idx) (fam.alignOf value)).1 :=
    allocateBytes_confined _ _ _
  unfold World.obtain
  generalize w.allocateBytes fam (.thread value thread) (os 0)
    (tlsClassBytes idx) (fam.alignOf value) = outcome at first confined ⊢
  obtain ⟨w₁, exn | raw⟩ := outcome
  · exact first
  dsimp only at first confined ⊢
  split
  · obtain ⟨middle, after, thins⟩ := first
    obtain ⟨gone, last, returned, drained, _⟩ := after.tlsDrainAll value thread
    have quiet : Confined fam (.thread value thread) w
        (w₁.tlsDrainAll fam value thread) := confined.trans tlsDrainAll_confined
    have again : Thinned fam live last ((w₁.tlsDrainAll fam value
        thread).allocateBytes fam (.thread value thread) (os 1)
          (tlsClassBytes idx) (fam.alignOf value)).1 :=
      drained.allocateBytes_thinned (fam.alignOf value)
        (by rw [quiet.created]; exact created)
        (by rw [quiet.others]; exact avoids 1) word
    exact again.before (thins.trans returned.thins)
  · exact first

end WorldOk

end Suballocated

end Allocazam
