import Allocazam.SuballocatedDiscretion
import Allocazam.SuballocatedObservation

/-!
# Confinement of the suballocated allocator

Whatever a thread calls, with all the drains, refills and routed frees on the way, it
serves the call discreetly: states of other threads see the heads of their remote stacks
move and nothing else, and what users and other caches hold stays as it is.
-/

namespace Allocazam

namespace Suballocated

variable {Value Thread Bound : Type} [DecidableEq Value] [DecidableEq Thread]
  [DecidableEq Bound] {fam : Family Value Thread Bound}
  {w w' : World Value Thread Bound} {live : List (Item fam)}
  {ledger middle next : Ledger Value Thread Bound}
  {site other : Site Value Thread Bound} {value : Value} {thread : Thread}
  {idx p bytes : Nat}

/-- The invariant holds after what was done, which was discreet. -/
def Serves (fam : Family Value Thread Bound) (live : List (Item fam)) (value : Value)
    (thread : Thread) (site : Site Value Thread Bound) (w : World Value Thread Bound)
    (ledger : Ledger Value Thread Bound) (w' : World Value Thread Bound) : Prop :=
  ∃ next, WorldOk fam w' live next ∧ Discreet fam value thread site w ledger w' next

omit [DecidableEq Value] [DecidableEq Thread] [DecidableEq Bound] in
theorem Serves.refl (ok : WorldOk fam w live ledger) :
    Serves fam live value thread site w ledger w :=
  ⟨ledger, ok, .refl w ledger⟩

omit [DecidableEq Value] [DecidableEq Thread] [DecidableEq Bound] in
theorem Discreet.serves (first : Discreet fam value thread site w ledger w' middle)
    {w'' : World Value Thread Bound} (rest : Serves fam live value thread site w' middle w'') :
    Serves fam live value thread site w ledger w'' := by
  obtain ⟨next, ok, second⟩ := rest
  exact ⟨next, ok, first.trans second⟩

namespace Discreet

variable (ok : WorldOk fam w live ledger)

include ok

omit [DecidableEq Bound] in
theorem tlsPush (run : ledger.HasRun other p) (adrift : ledger.place p = some .adrift)
    (stamp : Nat) :
    Discreet fam value thread site w ledger (w.tlsPush value thread idx p stamp)
      (ledger.settle p (.cached value thread idx)) := by
  refine reclass ok rfl rfl (fun _ _ apart => World.setClass_elsewhere _ apart)
    (Ledger.not_sheltered_of_adrift adrift) (fun elsewhere => elsewhere.2 idx rfl) ?_
  intro addr
  by_cases second : addr = p + 8
  · exact .inr ⟨other, p, run, .inr second, Ledger.not_sheltered_of_adrift adrift⟩
  · by_cases first : addr = p
    · exact .inr ⟨other, p, run, .inl first, Ledger.not_sheltered_of_adrift adrift⟩
    · refine .inl ?_
      unfold World.tlsPush World.setClass World.write
      dsimp only
      rw [Function.update_of_ne second, Function.update_of_ne first]

omit [DecidableEq Bound] in
/-- An entry comes off the thread's class list, with a write to another entry at
most. -/
theorem pop {cls : RunClass} {before written : Nat} {entries : List Nat}
    (listed : ClassOk fam w ledger value thread idx entries) (member : p ∈ entries)
    (linked : before = 0 ∨ before ∈ entries) :
    Discreet fam value thread site w ledger
      ((if before = 0 then w else w.write before written).setClass value thread idx cls)
      (ledger.settle p .adrift) := by
  have mine : ∀ q ∈ entries, ¬ ledger.Sheltered value thread q := fun q here =>
    Ledger.not_sheltered_of_cached ((listed.place q).mp here)
  refine reclass ok ?_ ?_ (fun value' thread' apart => ?_) (mine p member)
    (fun elsewhere => elsewhere.1 rfl) ?_
  · split <;> rfl
  · split <;> rfl
  · rw [World.setClass_elsewhere cls apart]
    split <;> rfl
  · intro addr
    rcases linked with rfl | linked
    · exact .inl rfl
    · obtain ⟨owner, allocation, run, rfl, _⟩ := listed.owned linked
      rw [if_neg (listed.chain.ne_zero _ linked)]
      by_cases here : addr = allocation.payload
      · exact .inr ⟨_, allocation.payload, ⟨allocation, run, rfl⟩, .inl here,
          mine _ linked⟩
      · exact .inl (Function.update_of_ne here _ _)

omit [DecidableEq Bound] in
/-- The walk of `_tls_pop_for_owner`, at the entries behind `front`. -/
theorem tlsPopWalk {owner prev : Nat} {front rest : List Nat}
    (cls : ClassOk fam w ledger value thread idx (front ++ rest))
    (last : prev = front.getLast?.getD 0) {node fuel : Nat}
    (chain : IsStack w.mem node rest) (enough : rest.length ≤ fuel)
    (found : (w.tlsPopWalk value thread idx owner fuel prev node).2 ≠ 0) :
    Discreet fam value thread site w ledger
      (w.tlsPopWalk value thread idx owner fuel prev node).1
      (ledger.settle (w.tlsPopWalk value thread idx owner fuel prev node).2 .adrift) := by
  induction rest generalizing front prev node fuel with
  | nil =>
      have ended : w.tlsPopWalk value thread idx owner fuel prev node = (w, 0) := by
        cases fuel with
        | zero => rfl
        | succ fuel => exact if_pos chain
      rw [ended] at found
      exact absurd rfl found
  | cons first rest ih =>
      obtain ⟨rfl, nonnull, later⟩ := chain
      obtain ⟨fuel, rfl⟩ : ∃ rounds, fuel = rounds + 1 :=
        ⟨fuel - 1, by rw [List.length_cons] at enough; omega⟩
      unfold World.tlsPopWalk at found ⊢
      rw [if_neg nonnull] at found ⊢
      by_cases stamp : w.mem (node + 8) = owner
      · rw [if_neg (not_not_intro stamp)]
        have linked : prev = 0 ∨ prev ∈ front ++ node :: rest := by
          rcases List.eq_nil_or_concat front with rfl | ⟨_, entry, rfl⟩
          · exact .inl last
          · refine .inr ?_
            rw [last]
            simp
        have popped : ∀ cls', Discreet fam value thread site w ledger
            ((if prev = 0 then w else w.write prev (w.mem node)).setClass value thread idx
              cls') (ledger.settle node .adrift) :=
          fun _ => pop ok cls (by simp) linked
        dsimp only
        by_cases front : prev = 0
        · have taken := popped ⟨w.mem node, decrement (w.classes value thread idx).count⟩
          rw [if_pos front] at taken ⊢
          exact taken
        · have taken := popped ⟨(w.classes value thread idx).head,
            decrement (w.classes value thread idx).count⟩
          rw [if_neg front] at taken ⊢
          exact taken
      · rw [if_pos stamp] at found ⊢
        rw [List.append_cons] at cls
        exact ih cls (by simp) later (Nat.le_of_succ_le_succ enough) found

omit [DecidableEq Bound] in
theorem tlsPopForOwner {owner : Nat}
    (found : (w.tlsPopForOwner value thread idx owner).2 ≠ 0) :
    Discreet fam value thread site w ledger (w.tlsPopForOwner value thread idx owner).1
      (ledger.settle (w.tlsPopForOwner value thread idx owner).2 .adrift) := by
  obtain ⟨entries, cls⟩ := ok.classes value thread idx
  have whole : ClassOk fam w ledger value thread idx ([] ++ entries) := cls
  exact tlsPopWalk ok whole rfl cls.chain cls.count.ge found

end Discreet

namespace WorldOk

theorem evict_discreet (ok : WorldOk fam w live ledger) {back : List Nat}
    (cls : ClassOk fam w ledger value thread idx (p :: back)) :
    ∃ next, WorldOk fam
        ((w.setClass value thread idx
          ⟨w.mem p, decrement (w.classes value thread idx).count⟩).returnRun fam
            value thread p (w.mem (p + 8))) live next ∧
      ClassOk fam
        ((w.setClass value thread idx
          ⟨w.mem p, decrement (w.classes value thread idx).count⟩).returnRun fam
            value thread p (w.mem (p + 8))) next value thread idx back ∧
      Discreet fam value thread (.thread value thread) w ledger
        ((w.setClass value thread idx
          ⟨w.mem p, decrement (w.classes value thread idx).count⟩).returnRun fam
            value thread p (w.mem (p + 8))) next := by
  obtain ⟨owner, allocation, member, payload, _, stamp, _⟩ :=
    cls.owned List.mem_cons_self
  have popped := ok.popHead cls
  have run : (ledger.settle p .adrift).HasRun (.thread value owner) p :=
    ⟨allocation, member, payload⟩
  have loose : (ledger.settle p .adrift).place p = some .adrift :=
    Ledger.settle_self .adrift
  have taken : Discreet fam value thread (.thread value thread) w ledger
      ((if 0 = 0 then w else w.write 0 0).setClass value thread idx
        ⟨w.mem p, decrement (w.classes value thread idx).count⟩)
      (ledger.settle p .adrift) :=
    Discreet.pop ok cls List.mem_cons_self (.inl rfl)
  rw [if_pos rfl] at taken
  rw [stamp]
  exact ⟨_, popped.returnRun run loose, popped.returnRun_class run loose cls.tail,
    taken.trans (Discreet.returnRun popped run loose)⟩

theorem tlsDrainWalk_discreet (ok : WorldOk fam w live ledger) {keepCount fuel : Nat}
    {entries : List Nat} (cls : ClassOk fam w ledger value thread idx entries) :
    Serves fam live value thread (.thread value thread) w ledger
      (World.tlsDrainWalk fam value thread idx keepCount fuel w) := by
  induction fuel generalizing w ledger entries with
  | zero => exact .refl ok
  | succ fuel ih =>
      unfold World.tlsDrainWalk World.tlsPopAny
      split
      · rename_i full
        cases entries with
        | nil =>
            rw [cls.count] at full
            cases full
        | cons p back =>
            obtain ⟨next, evicted, rest, discreet⟩ := ok.evict_discreet cls
            have head : (w.classes value thread idx).head = p := cls.chain.1
            have nonnull : p ≠ 0 := cls.chain.2.1
            dsimp only
            rw [head, if_neg nonnull]
            dsimp only
            rw [if_neg nonnull]
            exact discreet.serves (ih evicted rest)
      · exact .refl ok

theorem tlsDrainClass_discreet (ok : WorldOk fam w live ledger) (keepCount : Nat) :
    Serves fam live value thread (.thread value thread) w ledger
      (w.tlsDrainClass fam value thread idx keepCount) := by
  obtain ⟨entries, cls⟩ := ok.classes value thread idx
  exact ok.tlsDrainWalk_discreet cls

omit [DecidableEq Value] [DecidableEq Thread] [DecidableEq Bound] in
theorem sweep_discreet {f : World Value Thread Bound → Nat → World Value Thread Bound}
    (each : ∀ {w : World Value Thread Bound} {ledger} (idx : Nat),
      WorldOk fam w live ledger → Serves fam live value thread site w ledger (f w idx))
    (ok : WorldOk fam w live ledger) (indices : List Nat) :
    Serves fam live value thread site w ledger (indices.foldl f w) := by
  induction indices generalizing w ledger with
  | nil => exact .refl ok
  | cons idx indices ih =>
      obtain ⟨next, after, discreet⟩ := each idx ok
      exact discreet.serves (ih after)

theorem tlsDrainAll_discreet (ok : WorldOk fam w live ledger) :
    Serves fam live value thread (.thread value thread) w ledger
      (w.tlsDrainAll fam value thread) :=
  sweep_discreet (fun _ ok => ok.tlsDrainClass_discreet 0) ok _

theorem returnEach_discreet (ok : WorldOk fam w live ledger) {entries : List Nat}
    {stamp : Nat → Nat} (cls : ClassOk fam w ledger value thread idx entries)
    (stamps : ∀ q ∈ entries, w.mem (q + 8) = stamp q) :
    Serves fam live value thread (.thread value thread) w ledger
      ((World.returnEach fam value thread stamp entries w).setClass value thread idx
        ⟨0, 0⟩) := by
  induction entries generalizing w ledger with
  | nil =>
      have empty : w.classes value thread idx = ⟨0, 0⟩ := by
        have null := cls.chain
        have none := cls.count
        generalize w.classes value thread idx = c at *
        obtain ⟨head, count⟩ := c
        dsimp only at null none
        rw [null, none]
        rfl
      have same : (World.returnEach fam value thread stamp [] w).setClass value
          thread idx ⟨0, 0⟩ = w := by
        rw [← empty]
        exact World.setClass_same
      rw [same]
      exact .refl ok
  | cons p back ih =>
      obtain ⟨next, evicted, rest, discreet⟩ := ok.evict_discreet cls
      obtain ⟨last, returned, _, left, _⟩ := ok.evict cls
      have later : ∀ q ∈ back, ((w.setClass value thread idx ⟨w.mem p,
          decrement (w.classes value thread idx).count⟩).returnRun fam value thread p
            (w.mem (p + 8))).mem (q + 8) = stamp q := by
        intro q listed
        have member := List.mem_cons_of_mem p listed
        rw [ok.stamp_kept cls left returned member listed, stamps q member]
      have done := ih evicted rest later
      have cleared : ((World.returnEach fam value thread stamp back
          ((w.setClass value thread idx ⟨w.mem p, decrement
            (w.classes value thread idx).count⟩).returnRun fam value thread p
              (w.mem (p + 8)))).setClass value thread idx ⟨0, 0⟩) =
          (World.returnEach fam value thread stamp (p :: back) w).setClass value
            thread idx ⟨0, 0⟩ := by
        rw [stamps p List.mem_cons_self, ← World.returnRun_setClass,
          ← World.returnEach_setClass, World.setClass_setClass]
        rfl
      rw [cleared] at done
      exact discreet.serves done

theorem destroyCache_discreet (ok : WorldOk fam w live ledger) :
    Serves fam live value thread (.thread value thread) w ledger
      (w.destroyCache fam value thread) := by
  refine sweep_discreet (fun {w ledger} idx ok => ?_) ok _
  obtain ⟨entries, cls⟩ := ok.classes value thread idx
  have stamps : ∀ q ∈ entries, w.mem (q + 8) = (fun q => w.mem (q + 8)) q := fun _ _ => rfl
  obtain ⟨same, _⟩ := ok.destroyClass cls stamps
  rw [same]
  exact ok.returnEach_discreet cls stamps

end WorldOk

/-- `_thread_state`: nothing happens but the creation of the thread's own state. -/
theorem Discreet.threadState (ledger : Ledger Value Thread Bound) (room : Bool) :
    Discreet fam value thread (.thread value thread) w ledger
      (w.threadState fam value thread room).1 ledger := by
  unfold World.threadState
  dsimp only
  split
  · exact .refl w ledger
  split
  · exact
      { Discreet.refl w ledger with
        pool := fun other distinct => by
          dsimp only
          rw [Function.update_of_ne distinct]
          exact ⟨_, rfl⟩
        runs := fun other distinct => by
          dsimp only
          rw [Function.update_of_ne distinct]
          exact ⟨_, rfl⟩
        created := fun other distinct => Function.update_of_ne distinct _ _
        leaves := fun q _ => ⟨fun _ node => ⟨node, fun _ _ => rfl⟩,
          fun _ run => ⟨run, le_rfl, fun _ _ _ => rfl⟩⟩ }
  · exact .refl w ledger

theorem Discreet.runsPtr (ledger : Ledger Value Thread Bound) (a : Handle fam value)
    (room : Bool) :
    Discreet fam value thread (a.siteOn thread) w ledger
      (w.runsPtr fam a thread room).1 ledger := by
  cases a with
  | defaultState stateless => exact .threadState ledger room
  | explicitState site typed => exact .refl w ledger
  | runsOverride site => exact .refl w ledger

theorem Discreet.allocState (ledger : Ledger Value Thread Bound) (a : Handle fam value)
    (room : Bool) :
    Discreet fam value thread (a.siteOn thread) w ledger
      (w.allocState fam a thread room).1 ledger := by
  cases a with
  | defaultState stateless =>
      have made : Discreet fam value thread (.thread value thread) w ledger
          (w.threadState fam value thread room).1 ledger := .threadState ledger room
      unfold World.allocState
      dsimp only
      generalize w.threadState fam value thread room = outcome at made ⊢
      obtain ⟨w', exn | site⟩ := outcome <;> exact made
  | explicitState site typed => exact .refl w ledger
  | runsOverride site => exact .refl w ledger

namespace WorldOk

theorem allocateBytes_discreet (ok : WorldOk fam w live ledger) (value : Value)
    (thread : Thread) {os : Runner.Os} (alignment : Nat)
    (created : w.created site = true) (avoids : os.Avoids (w.others fam (.runs site)))
    (word : bytes < 2 ^ 64) :
    Serves fam live value thread site w ledger
      (w.allocateBytes fam site os bytes alignment).1 :=
  ⟨_, (ok.allocateBytes alignment created avoids word).1,
    .allocateBytes ok alignment created avoids word⟩

section Cached

variable {os : Nat → Runner.Os}

theorem refill_discreet (ok : WorldOk fam w live ledger)
    (created : w.created (.thread value thread) = true)
    (avoids : ∀ i, (os i).Avoids (w.others fam (.runs (.thread value thread))))
    (bounded : idx < tlsRunClassCount) (rounds : Nat) :
    Serves fam live value thread (.thread value thread) w ledger
      (World.refill fam value thread (.thread value thread) os idx rounds w).1 := by
  induction rounds generalizing w ledger with
  | zero => exact .refl ok
  | succ rounds ih =>
      have word := tlsClassBytes_lt bounded
      have after := (ok.allocateBytes (fam.alignOf value) created
        (avoids (rounds + 2)) word).1
      have given : Discreet fam value thread (.thread value thread) w ledger _ _ :=
        .allocateBytes ok (fam.alignOf value) created (avoids (rounds + 2)) word
      have confined : Confined fam (.thread value thread) w _ :=
        allocateBytes_confined (os (rounds + 2)) (tlsClassBytes idx) (fam.alignOf value)
      unfold World.refill
      generalize w.allocateBytes fam (.thread value thread) (os (rounds + 2))
        (tlsClassBytes idx) (fam.alignOf value) = outcome at *
      obtain ⟨w', exn | extra⟩ := outcome
      · exact ⟨_, after, given⟩
      · dsimp only at after given confined ⊢
        split
        · exact ⟨_, after, given⟩
        · rename_i nonnull
          unfold Ledger.afterAllocation at after given
          dsimp only at after given
          rw [if_neg nonnull] at after given
          have quiet : Confined fam (.thread value thread) w
              (w'.tlsPush value thread idx extra (fam.runsAt (.thread value thread))) :=
            confined.trans (.of_states rfl rfl)
          have run : (ledger.acquire (.thread value thread) extra
              (tlsClassBytes idx)).HasRun (.thread value thread) extra := by
            refine ⟨⟨extra, tlsClassBytes idx, 0⟩, ?_, rfl⟩
            unfold Ledger.acquire
            rw [Ledger.setRuns_self]
            exact List.mem_cons_self
          have pushed : Discreet fam value thread (.thread value thread) w' _
              (w'.tlsPush value thread idx extra (fam.runsAt (.thread value thread))) _ :=
            .tlsPush after run (Function.update_self _ _ _) _
          exact (given.trans pushed).serves (ih after.stock
            (by rw [quiet.created]; exact created)
            fun i => by rw [quiet.others]; exact avoids i)

variable (ok : WorldOk fam w live ledger)
  (created : w.created (.thread value thread) = true)
  (avoids : ∀ i, (os i).Avoids (w.others fam (.runs (.thread value thread))))
  (bounded : idx < tlsRunClassCount)

include ok created avoids bounded

theorem obtain_discreet :
    Serves fam live value thread (.thread value thread) w ledger
      (w.obtain fam value thread (.thread value thread) os idx).1 := by
  have word := tlsClassBytes_lt bounded
  have served := ok.allocateBytes_discreet value thread (fam.alignOf value) created
    (avoids 0) word
  have confined : Confined fam (.thread value thread) w _ :=
    allocateBytes_confined (os 0) (tlsClassBytes idx) (fam.alignOf value)
  unfold World.obtain
  generalize w.allocateBytes fam (.thread value thread) (os 0) (tlsClassBytes idx)
    (fam.alignOf value) = outcome at *
  obtain ⟨w₁, exn | raw⟩ := outcome
  · exact served
  · dsimp only at served confined ⊢
    split
    · obtain ⟨next, after, given⟩ := served
      have drains : Serves fam live value thread (.thread value thread) w₁ next
          (w₁.tlsDrainAll fam value thread) := after.tlsDrainAll_discreet
      obtain ⟨last, drained, discreet⟩ := drains
      have quiet : Confined fam (.thread value thread) w
          (w₁.tlsDrainAll fam value thread) := confined.trans tlsDrainAll_confined
      exact (given.trans discreet).serves (drained.allocateBytes_discreet value thread
        (fam.alignOf value) (by rw [quiet.created]; exact created)
        (by rw [quiet.others]; exact avoids 1) word)
    · exact served

theorem allocateForCache_discreet :
    Serves fam live value thread (.thread value thread) w ledger
      (w.allocateForCache fam value thread (.thread value thread) os idx).1 := by
  have served := ok.obtain_discreet created avoids bounded
  have confined : Confined fam (.thread value thread) w
      (w.obtain fam value thread (.thread value thread) os idx).1 := World.obtain_confined
  rw [World.allocateForCache_eq]
  generalize w.obtain fam value thread (.thread value thread) os idx = outcome at *
  obtain ⟨w₁, exn | raw⟩ := outcome
  · exact served
  · dsimp only at served confined ⊢
    split
    · exact served
    · obtain ⟨next, after, discreet⟩ := served
      unfold World.refillAndHandOut
      split
      · have refilled := after.refill_discreet (by rw [confined.created]; exact created)
          (fun i => by rw [confined.others]; exact avoids i) bounded (tlsRefillBatch - 1)
        generalize World.refill fam value thread (.thread value thread) os idx
          (tlsRefillBatch - 1) w₁ = result at refilled ⊢
        obtain ⟨w₂, exn | ⟨⟩⟩ := result <;> exact discreet.serves refilled
      · exact ⟨next, after, discreet⟩

end Cached

variable (ok : WorldOk fam w live ledger) {a : Handle fam value} {env : Environment}
  (usable : a.Usable w)

section Resolved

include ok

theorem allocateFromTlsRunCache_discreet {w₀ : World Value Thread Bound}
    (resolution : w₀.runsPtr fam a thread env.room = (w, .ok (.thread value thread)))
    (avoids : ∀ i, (env.os i).Avoids (w.others fam (.runs (.thread value thread))))
    (created : w.created (.thread value thread) = true)
    (positive : 0 < bytes) (bounded : bytes ≤ tlsRunCutoff) :
    Serves fam live value thread (.thread value thread) w ledger
      (w₀.allocateFromTlsRunCache fam a thread env bytes).1 := by
  obtain ⟨inClasses, _⟩ := tlsClass_spec positive bounded
  unfold World.allocateFromTlsRunCache
  rw [resolution]
  dsimp only
  generalize tlsClassIndexFor bytes = idx at *
  obtain ⟨entries, cls⟩ := ok.classes value thread idx
  have popped : Popped fam w live ledger (fam.runsAt (.thread value thread))
      entries (w.tlsPopForOwner value thread idx
        (fam.runsAt (.thread value thread))) := ok.tlsPopForOwner cls
  have discreet : (w.tlsPopForOwner value thread idx
        (fam.runsAt (.thread value thread))).2 ≠ 0 →
      Discreet fam value thread (.thread value thread) w ledger _ _ :=
    fun found => .tlsPopForOwner ok found
  generalize w.tlsPopForOwner value thread idx
    (fam.runsAt (.thread value thread)) = result at *
  cases popped with
  | nothing without =>
      dsimp only
      rw [if_neg (by simp)]
      exact ok.allocateForCache_discreet created avoids inClasses
  | @entry w' q listed stamp states created' popped =>
      have nonnull := cls.chain.ne_zero q listed
      dsimp only at discreet ⊢
      rw [if_pos nonnull]
      exact ⟨_, popped, discreet nonnull⟩

include usable

theorem allocateRun_discreet {os : Runner.Os} {room : Bool}
    (avoids : os.Avoids (w.others fam (.runs (a.siteOn thread))))
    (word : bytes < 2 ^ 64) :
    Serves fam live value thread (a.siteOn thread) w ledger
      (w.allocateRun fam a thread room os bytes).1 := by
  obtain ⟨⟨resolved, same, made⟩, found⟩ := ok.runsPtr thread room usable
  have discreet : Discreet fam value thread (a.siteOn thread) w ledger _ ledger :=
    .runsPtr ledger a room
  unfold World.allocateRun
  generalize w.runsPtr fam a thread room = outcome at *
  obtain ⟨w₁, exn | other⟩ := outcome
  · exact ⟨ledger, resolved, discreet⟩
  obtain rfl := found other rfl
  have created := made ⟨_, rfl⟩
  dsimp only at resolved same created discreet ⊢
  have quiet : os.Avoids (w₁.others fam (.runs (a.siteOn thread))) := by
    rw [same.others]
    exact avoids
  have served := resolved.allocateBytes_discreet value thread (fam.alignOf value) created
    quiet word
  generalize w₁.allocateBytes fam (a.siteOn thread) os bytes (fam.alignOf value) =
    result at served ⊢
  obtain ⟨w₂, exn | raw⟩ := result
  · exact discreet.serves served
  · dsimp only
    split <;> exact discreet.serves served

end Resolved

variable (avoids : env.Avoids (w.inUse fam))

include ok usable avoids

theorem allocateNode_discreet (word : fam.sizeOf value < 2 ^ 64) :
    Serves fam live value thread (a.siteOn thread) w ledger
      (w.allocateNode fam a thread env).1 := by
  obtain ⟨⟨resolved, same, made⟩, found⟩ := ok.allocState thread env.room usable
  have discreet : Discreet fam value thread (a.siteOn thread) w ledger _ ledger :=
    .allocState ledger a env.room
  unfold World.allocateNode
  generalize w.allocState fam a thread env.room = outcome at *
  obtain ⟨w₁, exn | target⟩ := outcome
  · exact ⟨ledger, resolved, discreet⟩
  have created := made ⟨target, rfl⟩
  dsimp only at resolved same created discreet ⊢
  by_cases unpooled : a.mode = .runsOverride
  · obtain rfl := (found target rfl).trans (if_pos unpooled)
    have usableNow : a.Usable w₁ := fun site bound => same.created site (usable site bound)
    have quiet : (env.os 0).Avoids (w₁.others fam (.runs (a.siteOn thread))) := by
      rw [same.others]
      exact avoids.others _ 0
    exact discreet.serves (resolved.allocateRun_discreet usableNow quiet word)
  · obtain rfl := (found target rfl).trans (if_neg unpooled)
    have heapAvoids : ∀ addr ∈ w₁.inUse fam, env.heap.inUse addr := by
      rw [same.inUse]
      exact avoids.heap
    have after := (resolved.allocateNode created heapAvoids).1
    have given : Discreet fam value thread (a.siteOn thread) w₁ ledger _ _ :=
      .allocateNode resolved created heapAvoids
    dsimp only
    generalize (w₁.pool (a.siteOn thread)).allocate
      (fam.poolConfig (a.siteOn thread)) env.heap = outcome at *
    obtain ⟨s, exn | p⟩ := outcome
    · exact ⟨_, after, discreet.trans given⟩
    · dsimp only at after given ⊢
      split <;> exact ⟨_, after, discreet.trans given⟩

theorem allocate_discreet (n : Nat) :
    Serves fam live value thread (a.siteOn thread) w ledger
      (w.allocate fam a thread env n).1 := by
  unfold World.allocate
  split
  · exact .refl ok
  rename_i some
  split
  · exact .refl ok
  rename_i small
  have bounded : n ≤ fam.maxSize value := by omega
  have product := Family.le_maxSize_iff.mp bounded
  split
  · rename_i one
    subst one
    exact ok.allocateNode_discreet usable avoids (by omega)
  rename_i several
  have positive : 0 < n * fam.sizeOf value :=
    Nat.mul_pos (by omega) (fam.sizePositive value)
  rw [checkedMul_eq_some.mpr ⟨product, rfl⟩]
  dsimp only
  split
  · rename_i cached
    obtain ⟨own, cutoff⟩ := a.canUse_spec cached thread
    have resolution := ok.runsPtr thread env.room usable
    have discreet : Discreet fam value thread (a.siteOn thread) w ledger _ ledger :=
      .runsPtr ledger a env.room
    cases result : w.runsPtr fam a thread env.room with
    | mk w₁ result' =>
      rw [result] at resolution discreet
      obtain ⟨⟨resolved, same, made⟩, found⟩ := resolution
      dsimp only at resolved same made found discreet
      cases result' with
      | error exn =>
          have thrown : w.allocateFromTlsRunCache fam a thread env
              (n * fam.sizeOf value) = (w₁, .error exn) := by
            unfold World.allocateFromTlsRunCache
            rw [result]
          rw [thrown]
          exact ⟨ledger, resolved, discreet⟩
      | ok site =>
        have here := found site rfl
        have created := made ⟨site, rfl⟩
        rw [own] at here created discreet ⊢
        subst here
        have quiet : ∀ i, (env.os i).Avoids
            (w₁.others fam (.runs (.thread value thread))) := fun i => by
          rw [same.others]
          exact avoids.others _ i
        have served := resolved.allocateFromTlsRunCache_discreet result quiet created
          positive cutoff
        have outcome := resolved.allocateFromTlsRunCache result quiet created
          positive cutoff
        generalize w.allocateFromTlsRunCache fam a thread env
          (n * fam.sizeOf value) = result at served outcome ⊢
        cases outcome with
        | throws => exact discreet.serves served
        | given nonnull =>
            dsimp only
            unfold World.allocateRest
            rw [if_pos nonnull]
            exact discreet.serves served
        | @null w₂ _ _ _ _ confined _ =>
            obtain ⟨last, after, popped⟩ := served
            dsimp only
            unfold World.allocateRest
            rw [if_neg (by simp)]
            have quietNow : (env.os 5).Avoids
                (w₂.others fam (.runs (a.siteOn thread))) := by
              rw [own, confined.others]
              exact quiet 5
            have retried : Serves fam live value thread (a.siteOn thread) w₂ last
                (w₂.allocateRun fam a thread env.room (env.os 5)
                  (n * fam.sizeOf value)).1 :=
              after.allocateRun_discreet (a.usable_of_canUse cached w₂) quietNow product
            rw [own] at retried
            exact (discreet.trans popped).serves retried
  · unfold World.allocateRest
    rw [if_neg (by simp)]
    exact ok.allocateRun_discreet usable (avoids.others (.runs (a.siteOn thread)) 5) product

end WorldOk

omit [DecidableEq Value] [DecidableEq Thread] [DecidableEq Bound] in
/-- A pointer that a user gives up was of no importance to what was done. -/
theorem Discreet.settle (discreet : Discreet fam value thread site w ledger w' next)
    (p : Nat) :
    Discreet fam value thread site w (ledger.settle p .adrift) w'
      (next.settle p .adrift) := by
  have sheltered : ∀ q, (ledger.settle p .adrift).Sheltered value thread q →
      ledger.Sheltered value thread q := by
    rintro q ⟨x, here, elsewhere⟩
    by_cases moved : q = p
    · subst moved
      rw [Ledger.settle_self] at here
      exact absurd (Option.some.inj here).symm elsewhere.1
    · rw [Ledger.settle_of_ne _ moved] at here
      exact ⟨x, here, elsewhere⟩
  exact
    { pool := discreet.pool
      runs := discreet.runs
      created := discreet.created
      classes := discreet.classes
      places := by
        intro q x elsewhere
        by_cases moved : q = p
        · subst moved
          rw [Ledger.settle_self, Ledger.settle_self]
        · rw [Ledger.settle_of_ne _ moved, Ledger.settle_of_ne _ moved]
          exact discreet.places q x elsewhere
      leaves := fun q still => by
        have left := discreet.leaves q (sheltered q still)
        exact ⟨left.node, left.run⟩
      gives := discreet.gives
      writes := by
        intro other distinct addr owned
        refine (discreet.writes other distinct addr owned).imp_right ?_
        rintro ⟨q, word, loose⟩
        exact ⟨q, word, fun still => loose (sheltered q still)⟩ }

namespace WorldOk

variable (ok : WorldOk fam w live ledger) {item : Item fam} {b : Handle fam item.value}
  {m : Nat} (member : item ∈ live) (equal : b.Equal item.handle)

include ok member equal

/-- Freeing an allocation that the user has given up. -/
theorem deallocate_discreet (lower : item.requested ≤ m) (upper : m ≤ item.count) :
    Serves fam (live.filter fun other => other.ptr ≠ item.ptr) item.value thread
      (b.siteOn thread) w (ledger.settle item.ptr .adrift)
      (w.deallocate fam b thread item.ptr m) := by
  have given := ok.takeBack member
  have loose : (ledger.settle item.ptr .adrift).place item.ptr = some .adrift :=
    Ledger.settle_self .adrift
  have fits := ok.items item member
  have held := (ok.held item.ptr).mpr ⟨item, member, rfl⟩
  obtain rfl := equal.eq
  by_cases single : item.IsNode
  · obtain ⟨site, node, draws⟩ := fits.node single
    rw [ok.deallocate_node member equal lower upper single,
      ok.freeNodeRouted_eq node draws single.2]
    by_cases direct : site = item.handle.siteOn thread
    · rw [if_pos direct]
      exact ⟨_, given.deallocateNode node loose, .deallocateNode given node loose direct⟩
    · rw [if_neg direct]
      -- Only default allocators free what other threads allocated.
      have headers : fam.heapBacked = true := by
        cases handle : item.handle with
        | defaultState stateless =>
            unfold Family.stateless at stateless
            simp only [Bool.and_eq_true] at stateless
            exact stateless.1
        | explicitState state typed =>
            rw [handle] at direct draws
            exact absurd draws direct
        | runsOverride runs =>
            rw [handle] at direct draws
            exact absurd draws direct
      exact ⟨_, given.parkNode node loose headers, .parkNode given node loose headers⟩
  · obtain ⟨site, allocation, listed, payload, _, draws⟩ := fits.run single
    have run : ledger.HasRun site item.ptr := ⟨allocation, listed, payload⟩
    rw [ok.deallocate_run member equal lower upper single]
    by_cases cached : m ≠ 1 ∧
        item.handle.canUseTlsRunCache (m * fam.sizeOf item.value) = true
    · rw [if_pos cached]
      obtain ⟨own, cutoff⟩ := item.handle.canUse_spec cached.2 thread
      have positive : 0 < m * fam.sizeOf item.value :=
        Nat.mul_pos (by have := fits.asked; omega) (fam.sizePositive _)
      obtain ⟨_, classBytes⟩ := tlsClass_spec positive cutoff
      rw [ok.deallocateToTlsRunCache_eq run (by simp [held]), own]
      generalize tlsClassIndexFor (m * fam.sizeOf item.value) = idx at classBytes ⊢
      -- Room is made while the user still has the pointer.
      have drains : Serves fam live item.value thread (.thread item.value thread) w ledger
          (w.drainedForPush fam item.value thread idx) := by
        unfold World.drainedForPush
        split
        · exact ok.tlsDrainClass_discreet tlsDrainLowWatermark
        · exact .refl ok
      obtain ⟨next, drained, discreet⟩ := drains
      obtain ⟨still, _⟩ := (discreet.leaves item.ptr
        ⟨.held, held, by simp, by simp⟩).run site run
      obtain ⟨other, kept, keptMember, same, covers, keptDraws⟩ :=
        (drained.items item member).run single
      obtain rfl := drained.run_unique still ⟨kept, keptMember, same⟩
      obtain ⟨owner, rfl⟩ : ∃ owner, site = .thread item.value owner := by
        have mode := cached.2
        cases handle : item.handle with
        | defaultState stateless =>
            rw [handle] at draws
            exact draws
        | explicitState state typed =>
            rw [handle] at mode
            simp [Handle.canUseTlsRunCache, Handle.mode] at mode
        | runsOverride runs =>
            rw [handle] at mode
            simp [Handle.canUseTlsRunCache, Handle.mode] at mode
      have smaller := Nat.mul_le_mul_right (fam.sizeOf item.value) upper
      have freed := drained.takeBack member
      have adrift : (next.settle item.ptr .adrift).place item.ptr = some .adrift :=
        Ledger.settle_self .adrift
      have pushed : Discreet fam item.value thread (.thread item.value thread)
          (w.drainedForPush fam item.value thread idx) (next.settle item.ptr .adrift)
          ((w.drainedForPush fam item.value thread idx).tlsPush item.value thread idx
            item.ptr (fam.runsAt (.thread item.value owner)))
          ((next.settle item.ptr .adrift).settle item.ptr
            (.cached item.value thread idx)) :=
        .tlsPush freed still adrift (fam.runsAt (.thread item.value owner))
      refine (discreet.settle item.ptr).serves ⟨_, ?_, pushed⟩
      rw [← same] at adrift freed ⊢
      refine freed.tlsPush keptMember adrift ?_
      rw [classBytes]
      unfold room at covers ⊢
      omega
    · rw [if_neg cached, ok.freeRunRouted_eq run draws]
      split
      · rename_i direct
        exact ⟨_, given.deallocateBytes run loose, .deallocateBytes given run loose direct⟩
      · exact ⟨_, given.remotePush run loose, .remotePush given run loose⟩

theorem expand_discreet {minNewBytes : Nat} (word : minNewBytes < 2 ^ 64) :
    Serves fam live item.value thread (b.siteOn thread) w ledger
      (w.expand fam b thread item.ptr minNewBytes).1 := by
  have fits := ok.items item member
  obtain rfl := equal.eq
  -- The runner that expands the run is that of the state that is called.
  have runner : ∀ site, ledger.HasRun site item.ptr →
      Serves fam live item.value thread site w ledger
        (w.expandRun fam site item.ptr minNewBytes).1 := by
    intro site run
    have called : Discreet fam item.value thread site w ledger
        (w.setRuns site (w.callRuns fam ledger site (.expand item.ptr minNewBytes)).state)
        (ledger.setRuns site
          (w.callRuns fam ledger site (.expand item.ptr minNewBytes)).live ledger.place) :=
      .call ok (ok.callable_expand run word) (.inl rfl) _ fun _ _ _ => Iff.rfl
    exact ⟨_, ok.expanded run word, called⟩
  by_cases single : item.IsNode
  · rcases ok.expand_cases member equal minNewBytes with same | ⟨site, run, _⟩
    · rw [same]
      exact .refl ok
    · obtain ⟨_, node, _⟩ := fits.node single
      exact absurd run (ok.node_not_run node)
  · obtain ⟨site, allocation, listed, payload, _, draws⟩ := fits.run single
    have run : ledger.HasRun site item.ptr := ⟨allocation, listed, payload⟩
    have served := runner site run
    cases handle : item.handle with
    | defaultState stateless =>
        rw [ok.expand_run stateless run]
        split
        · rename_i own
          subst own
          exact served
        · exact .refl ok
    | explicitState state typed =>
        rw [handle] at draws
        obtain rfl : site = state := draws
        unfold World.expand
        rw [if_neg (ok.ptr_ne_zero member)]
        dsimp only
        rw [if_neg (by rw [ok.not_owns_run run]; simp)]
        exact served
    | runsOverride runs =>
        rw [handle] at draws
        obtain rfl : site = runs := draws
        unfold World.expand
        rw [if_neg (ok.ptr_ne_zero member)]
        exact served

end WorldOk

section Construction

variable {pool : Pool.State} {runs : Runner.State} (ok : WorldOk fam w live ledger)
  (built : Built fam w site pool runs)

include ok built

/-- A new state leaves alone whatever is given out. -/
theorem WorldOk.born_leaves (p : Nat) :
    Leaves fam w ledger (w.withState site pool.toMembers runs) ledger p where
  node owner node :=
    ⟨node, fun _ inNode => built.kept ⟨.pool owner, ok.nodeRange_territory node inNode⟩⟩
  run owner run :=
    ⟨run, ok.run_contents run fun _ owned => built.kept ⟨.runs owner, owned⟩⟩

theorem Discreet.withState :
    Discreet fam value thread site w ledger (w.withState site pool.toMembers runs)
      ledger where
  pool other distinct := by
    rw [World.withState_of_ne _ _ distinct]
    exact ⟨_, rfl⟩
  runs other distinct := by
    rw [World.withState_of_ne _ _ distinct]
    exact ⟨_, rfl⟩
  created other distinct := World.withState_created_of_ne _ _ distinct
  classes _ _ _ := rfl
  places _ _ _ := Iff.rfl
  leaves q _ := ok.born_leaves built q
  gives _ _ := ⟨fun _ node => node, fun _ run => run⟩
  writes other _ addr owned := by
    refine .inl (built.kept ?_)
    rcases owned with owned | owned
    · exact ⟨.pool other, owned⟩
    · exact ⟨.runs other, owned⟩

end Construction

end Suballocated

end Allocazam
