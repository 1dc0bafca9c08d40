import Allocazam.SuballocatedServing

/-!
# Allocation of the suballocated allocator

`allocate` and `allocate_at_least` give out a node of a pool or a run of a
runner, with room for what was asked, or throw.
-/

namespace Allocazam

namespace Suballocated

variable {Value Thread Bound : Type} {fam : Family Value Thread Bound}
  {w w' : World Value Thread Bound} {live : List (Item fam)}
  {ledger next : Ledger Value Thread Bound}
  {site : Site Value Thread Bound} {value : Value} {thread : Thread}
  {a : Handle fam value} {n p bytes : Nat}

/-- The class of a cached request has room for it, and no more than the next
multiple of the quantum. -/
theorem tlsClass_spec (positive : 0 < bytes) (bounded : bytes ≤ tlsRunCutoff) :
    tlsClassIndexFor bytes < tlsRunClassCount ∧
      tlsClassBytes (tlsClassIndexFor bytes) = (bytes + 15) / 16 * 16 := by
  have cutoff : tlsRunCutoff = 4096 := rfl
  have count : tlsRunClassCount = 256 := by decide
  have aligned : Runner.alignUpPow2 bytes tlsRunQuantum =
      (bytes + 15) / 16 * 16 := by
    unfold Runner.alignUpPow2 tlsRunQuantum
    dsimp only
    rw [wrapAdd_eq (by omega)]
    exact and_wordNot_lowMask 4 (by omega) (by decide)
  unfold tlsClassIndexFor
  rw [aligned]
  have quotient : (bytes + 15) / 16 * 16 / tlsRunQuantum = (bytes + 15) / 16 :=
    Nat.mul_div_cancel _ (by decide)
  rw [quotient, decrement_eq (by omega)]
  unfold tlsClassBytes tlsRunQuantum
  omega

theorem Family.le_maxSize_iff :
    n ≤ fam.maxSize value ↔ n * fam.sizeOf value < 2 ^ 64 := by
  unfold Family.maxSize
  rw [Nat.le_div_iff_mul_le (fam.sizePositive value)]
  omega

theorem Family.le_maxSize_lt (bounded : n ≤ fam.maxSize value) : n < 2 ^ 64 := by
  have product := Family.le_maxSize_iff.mp bounded
  have positive := fam.sizePositive value
  calc n ≤ n * fam.sizeOf value := Nat.le_mul_of_pos_right n positive
    _ < 2 ^ 64 := product

/-- `allocate_at_least` asks for as many values as it was asked for at least, for
one if asked for one, and for no more than there may be. -/
theorem Family.growthCount_spec (bounded : n ≤ fam.maxSize value) :
    n ≤ World.growthCount fam value n ∧
      World.growthCount fam value n ≤ fam.maxSize value ∧
      (n = 1 → World.growthCount fam value n = 1) := by
  have word : fam.maxSize value < 2 ^ 64 := by
    have product := Nat.div_le_self (2 ^ 64 - 1) (fam.sizeOf value)
    unfold maxSize
    omega
  unfold World.growthCount
  split
  · have room : wrapSub (fam.maxSize value) (n / 2) =
        fam.maxSize value - n / 2 := wrapSub_eq (by omega) word
    dsimp only
    rw [room]
    split
    · omega
    · rw [wrapAdd_eq (by omega)]
      omega
  · omega

/-- Cached requests are those of default allocators for at most the cutoff. -/
theorem Handle.canUse_spec (cached : a.canUseTlsRunCache bytes = true)
    (thread : Thread) :
    a.siteOn thread = .thread value thread ∧ bytes ≤ tlsRunCutoff := by
  unfold Handle.canUseTlsRunCache at cached
  simp only [Bool.and_eq_true, beq_iff_eq, decide_eq_true_eq] at cached
  obtain ⟨_, mode, bounded⟩ := cached
  cases a with
  | defaultState stateless => exact ⟨rfl, bounded⟩
  | explicitState site typed => cases mode
  | runsOverride site => cases mode

theorem Handle.usable_of_canUse (cached : a.canUseTlsRunCache bytes = true)
    (w : World Value Thread Bound) : a.Usable w := by
  unfold Handle.canUseTlsRunCache at cached
  simp only [Bool.and_eq_true, beq_iff_eq, decide_eq_true_eq] at cached
  obtain ⟨_, mode, _⟩ := cached
  cases a with
  | defaultState stateless => rintro site (⟨⟨⟩⟩ | ⟨⟨⟩⟩)
  | explicitState site typed => cases mode
  | runsOverride site => cases mode

variable [DecidableEq Value] [DecidableEq Thread] [DecidableEq Bound]

omit [DecidableEq Value] [DecidableEq Thread] [DecidableEq Bound] in
theorem RunOutcome.weaken {orphans orphans' : Prop} {small : Nat}
    {result : World Value Thread Bound × Except Exn Nat}
    (outcome : RunOutcome fam w live ledger value thread site bytes orphans
      result) (le : small ≤ bytes) (same : orphans ↔ orphans') :
    RunOutcome fam w live ledger value thread site small orphans' result := by
  cases outcome with
  | given nonnull ok served created run =>
      obtain ⟨allocation, member, payload, enough⟩ := run
      exact .given nonnull ok served created
        ⟨allocation, member, payload, le.trans enough⟩
  | null ok served created confined intact =>
      exact .null ok served created confined fun lost => intact (same.mpr lost)
  | throws ok served owned lost => exact .throws ok served owned (lost.trans same)

omit [DecidableEq Value] [DecidableEq Thread] [DecidableEq Bound] in
/-- The OS of a call, seen by one runner. -/
theorem Environment.Avoids.others {env : Environment}
    (avoids : env.Avoids (w.inUse fam)) (tenant : Tenant Value Thread Bound)
    (i : Nat) : (env.os i).Avoids (w.others fam tenant) :=
  fun chunks bytes base granted addr lower upper inside =>
    avoids.os i chunks bytes base granted addr lower upper
      (w.others_subset fam tenant inside)

namespace WorldOk

variable (ok : WorldOk fam w live ledger) {env : Environment}
  (usable : a.Usable w)

include ok

theorem allocateFromTlsRunCache {w₀ : World Value Thread Bound}
    (resolution : w₀.runsPtr fam a thread env.room =
      (w, .ok (.thread value thread)))
    (avoids : ∀ i, (env.os i).Avoids
      (w.others fam (.runs (.thread value thread))))
    (created : w.created (.thread value thread) = true)
    (positive : 0 < bytes) (bounded : bytes ≤ tlsRunCutoff) :
    RunOutcome fam w live ledger value thread (.thread value thread) bytes
      ((w.tlsPopForOwner value thread (tlsClassIndexFor bytes)
          (fam.runsAt (.thread value thread))).2 = 0 ∧
        w.RefillFails fam value thread (.thread value thread) env.os
          (tlsClassIndexFor bytes))
      (w₀.allocateFromTlsRunCache fam a thread env bytes) := by
  obtain ⟨inClasses, classBytes⟩ := tlsClass_spec positive bounded
  unfold World.allocateFromTlsRunCache
  rw [resolution]
  dsimp only
  generalize tlsClassIndexFor bytes = idx at *
  obtain ⟨entries, cls⟩ := ok.classes value thread idx
  have popped : Popped fam w live ledger (fam.runsAt (.thread value thread))
      entries (w.tlsPopForOwner value thread idx
        (fam.runsAt (.thread value thread))) := ok.tlsPopForOwner cls
  generalize w.tlsPopForOwner value thread idx
    (fam.runsAt (.thread value thread)) = result at *
  cases popped with
  | nothing without =>
      dsimp only
      rw [if_neg (by simp)]
      refine (ok.allocateForCache created avoids inClasses).weaken (by omega) ?_
      simp
  | @entry w' q listed stamp states created' popped =>
      obtain ⟨owner, allocation, member, payload, enough, itsStamp, here⟩ :=
        cls.owned listed
      have nonnull := cls.chain.ne_zero q listed
      have own : (Site.thread value owner : Site Value Thread Bound) =
          .thread value thread :=
        Family.owner_of_stamp (itsStamp.symm.trans stamp)
      dsimp only
      rw [if_pos nonnull]
      refine .given nonnull popped (Ledger.settle_served here)
        (by rw [created']; exact created) ⟨allocation, ?_, payload, by omega⟩
      rw [own] at member
      exact member

include usable

theorem allocateRun {os : Runner.Os}
    (avoids : os.Avoids (w.others fam (.runs (a.siteOn thread))))
    (word : bytes < 2 ^ 64) :
    RunOutcome fam w live ledger value thread (a.siteOn thread) bytes False
        (w.allocateRun fam a thread env.room os bytes) ∧
      (w.allocateRun fam a thread env.room os bytes).2 ≠ .ok 0 := by
  obtain ⟨⟨resolved, same, made⟩, found⟩ := ok.runsPtr thread env.room usable
  unfold World.allocateRun
  generalize w.runsPtr fam a thread env.room = outcome at *
  obtain ⟨w₁, exn | other⟩ := outcome
  · exact ⟨.throws resolved (.refl ledger) (by simp) (by simp), by simp⟩
  obtain rfl := found other rfl
  have created := made ⟨_, rfl⟩
  dsimp only at resolved same created ⊢
  have quiet : os.Avoids (w₁.others fam (.runs (a.siteOn thread))) := by
    rw [same.others]
    exact avoids
  have given : RunOutcome fam w₁ live ledger value thread (a.siteOn thread) bytes
      False (w₁.allocateBytes fam (a.siteOn thread) os bytes
        (fam.alignOf value)) :=
    resolved.allocateBytes_outcome created quiet word (fam.alignOf value)
  generalize w₁.allocateBytes fam (a.siteOn thread) os bytes
    (fam.alignOf value) = result at given ⊢
  cases given with
  | throws after served owned lost =>
      exact ⟨.throws after served owned lost, by simp⟩
  | null after served _ _ _ =>
      dsimp only
      rw [if_pos rfl]
      exact ⟨.throws after served (by simp) (by simp), by simp⟩
  | given nonnull after served made run =>
      dsimp only
      rw [if_neg nonnull]
      exact ⟨.given nonnull after served made run, by simpa using nonnull⟩

end WorldOk

theorem Ledger.acquireNode_served (fresh : ledger.place p = none) :
    Ledger.Served value thread [p] ledger (ledger.acquireNode site p) where
  kept q x same _ := by
    have moved : q ≠ p := by
      rintro rfl
      rw [fresh] at same
      cases same
    exact (Function.update_of_ne moved _ _).trans same
  runs _ _ member _ _ _ := member
  cached q value' thread' idx' new := by
    by_cases moved : q = p
    · subst moved
      have adrift : (ledger.acquireNode site q).place q = some .adrift :=
        Function.update_self _ _ _
      rw [adrift] at new
      cases new
    · exact Or.inl ((Function.update_of_ne moved _ _).symm.trans new)
  loose q := by
    by_cases moved : q = p
    · subst moved
      exact iff_of_true (Function.update_self _ _ _) (by simp)
    · have same : (ledger.acquireNode site p).place q = ledger.place q :=
        Function.update_of_ne moved _ _
      rw [same]
      simp [moved]

/-- The thread-cached allocation obtains the run for the request, and throws in
the refill. -/
def World.LosesRun (fam : Family Value Thread Bound)
    (w : World Value Thread Bound) (a : Handle fam value) (thread : Thread)
    (env : Environment) (n : Nat) : Prop :=
  2 ≤ n ∧ ∃ bytes w₁, checkedMul n (fam.sizeOf value) = some bytes ∧
    a.canUseTlsRunCache bytes = true ∧
    w.runsPtr fam a thread env.room = (w₁, .ok (a.siteOn thread)) ∧
    (w₁.tlsPopForOwner value thread (tlsClassIndexFor bytes)
      (fam.runsAt (a.siteOn thread))).2 = 0 ∧
    w₁.RefillFails fam value thread (a.siteOn thread) env.os
      (tlsClassIndexFor bytes)

/-- What `allocate` comes to: nothing for no values, a node of a pool for one, a
run for several or where there is no pool, or an exception, which loses a run
just when `orphans` holds. -/
inductive AllocateOutcome (fam : Family Value Thread Bound)
    (live : List (Item fam)) (ledger : Ledger Value Thread Bound)
    (a : Handle fam value) (thread : Thread) (n : Nat) (orphans : Prop) :
    World Value Thread Bound × Except Exn Nat → Prop
  | null {w' : World Value Thread Bound} (none : n = 0)
      (ok : WorldOk fam w' live ledger) :
      AllocateOutcome fam live ledger a thread n orphans (w', .ok 0)
  | node {w' : World Value Thread Bound} {p : Nat}
      {next : Ledger Value Thread Bound} (one : n = 1)
      (bounded : n ≤ fam.maxSize value) (pooled : a.mode ≠ .runsOverride)
      (nonnull : p ≠ 0) (ok : WorldOk fam w' live next)
      (served : Ledger.Served value thread [p] ledger next)
      (node : p ∈ next.nodes (a.siteOn thread)) :
      AllocateOutcome fam live ledger a thread n orphans (w', .ok p)
  | run {w' : World Value Thread Bound} {p : Nat}
      {next : Ledger Value Thread Bound} (positive : 1 ≤ n)
      (bounded : n ≤ fam.maxSize value)
      (routed : n = 1 → a.mode = .runsOverride)
      (nonnull : p ≠ 0) (ok : WorldOk fam w' live next)
      (served : Ledger.Served value thread [p] ledger next)
      (run : ∃ allocation ∈ next.runs (a.siteOn thread),
        allocation.payload = p ∧ n * fam.sizeOf value ≤ room allocation) :
      AllocateOutcome fam live ledger a thread n orphans (w', .ok p)
  | throws {w' : World Value Thread Bound} {exn : Exn}
      {next : Ledger Value Thread Bound} {loose : List Nat}
      (ok : WorldOk fam w' live next)
      (served : Ledger.Served value thread loose ledger next)
      (owned : ∀ q ∈ loose, next.HasRun (a.siteOn thread) q)
      (lost : loose ≠ [] ↔ orphans) :
      AllocateOutcome fam live ledger a thread n orphans (w', .error exn)

omit [DecidableEq Value] [DecidableEq Thread] [DecidableEq Bound] in
/-- An allocation after the thread has turned to its cache in vain. -/
theorem AllocateOutcome.after {orphans orphans' : Prop}
    {middle : Ledger Value Thread Bound}
    {result : World Value Thread Bound × Except Exn Nat}
    (outcome : AllocateOutcome fam live middle a thread n orphans result)
    (served : Ledger.Served value thread [] ledger middle)
    (same : orphans ↔ orphans') (some : n ≠ 0) :
    AllocateOutcome fam live ledger a thread n orphans' result := by
  cases outcome with
  | null none ok => exact absurd none some
  | node one bounded pooled nonnull ok later node =>
      exact .node one bounded pooled nonnull ok (served.trans later) node
  | run positive bounded routed nonnull ok later run =>
      exact .run positive bounded routed nonnull ok (served.trans later) run
  | throws ok later owned lost =>
      exact .throws ok (served.trans later) owned (lost.trans same)

omit [DecidableEq Value] [DecidableEq Thread] [DecidableEq Bound] in
/-- A request for a run as the outcome of an allocation. -/
theorem RunOutcome.allocate {orphans : Prop}
    {result : World Value Thread Bound × Except Exn Nat}
    (outcome : RunOutcome fam w live ledger value thread (a.siteOn thread)
      (n * fam.sizeOf value) orphans result) (nonnull : result.2 ≠ .ok 0)
    (positive : 1 ≤ n) (bounded : n ≤ fam.maxSize value)
    (routed : n = 1 → a.mode = .runsOverride) :
    AllocateOutcome fam live ledger a thread n orphans result := by
  cases outcome with
  | given here ok served created run =>
      exact .run positive bounded routed here ok served run
  | null => exact absurd rfl nonnull
  | throws ok served owned lost => exact .throws ok served owned lost

namespace WorldOk

variable (ok : WorldOk fam w live ledger) {env : Environment}
  (usable : a.Usable w) (avoids : env.Avoids (w.inUse fam))

include ok usable avoids

theorem allocateOne (bounded : 1 ≤ fam.maxSize value) :
    AllocateOutcome fam live ledger a thread 1 False
      (w.allocateNode fam a thread env) := by
  have allocated := ok.allocState thread env.room usable
  unfold World.allocateNode
  cases resolution : w.allocState fam a thread env.room with
  | mk w₁ result =>
    rw [resolution] at allocated
    obtain ⟨⟨resolved, same, made⟩, found⟩ := allocated
    dsimp only at resolved same made found ⊢
    cases result with
    | error exn => exact .throws resolved (.refl ledger) (by simp) (by simp)
    | ok target =>
      have created := made ⟨target, rfl⟩
      by_cases unpooled : a.mode = .runsOverride
      · -- The allocator has a runner only.
        obtain rfl := (found target rfl).trans (if_pos unpooled)
        have word : fam.sizeOf value < 2 ^ 64 := by
          have product := Family.le_maxSize_iff.mp bounded
          omega
        have usableNow : a.Usable w₁ := fun site bound =>
          same.created site (usable site bound)
        have quiet : (env.os 0).Avoids (w₁.others fam (.runs (a.siteOn thread))) := by
          rw [same.others]
          exact avoids.others _ 0
        obtain ⟨outcome, nonnull⟩ :=
          resolved.allocateRun usableNow quiet word
        rw [← Nat.one_mul (fam.sizeOf value)] at outcome nonnull ⊢
        exact outcome.allocate nonnull le_rfl bounded fun _ => unpooled
      · obtain rfl := (found target rfl).trans (if_neg unpooled)
        have heapAvoids : ∀ addr ∈ w₁.inUse fam, env.heap.inUse addr := by
          rw [same.inUse]
          exact avoids.heap
        obtain ⟨after, fresh⟩ := resolved.allocateNode created heapAvoids
        dsimp only
        generalize (w₁.pool (a.siteOn thread)).allocate
          (fam.poolConfig (a.siteOn thread)) env.heap = outcome at *
        obtain ⟨s, exn | p⟩ := outcome
        · exact .throws after (.refl ledger) (by simp) (by simp)
        · dsimp only at after fresh ⊢
          unfold Ledger.afterNode at after
          dsimp only at after
          split
          · rename_i null
            rw [if_pos null] at after
            exact .throws after (.refl ledger) (by simp) (by simp)
          · rename_i nonnull
            rw [if_neg nonnull] at after
            refine .node rfl bounded unpooled nonnull after
              (Ledger.acquireNode_served (fresh p rfl nonnull)) ?_
            unfold Ledger.acquireNode
            rw [Ledger.setNodes_self]
            exact List.mem_cons_self

theorem allocate :
    AllocateOutcome fam live ledger a thread n
      (n ≤ fam.maxSize value ∧ w.LosesRun fam a thread env n)
      (w.allocate fam a thread env n) := by
  unfold World.allocate
  split
  · rename_i none
    exact .null none ok
  rename_i some
  split
  · rename_i large
    refine .throws ok (.refl ledger) (by simp) (iff_of_false (by simp) ?_)
    rintro ⟨bounded, _⟩
    omega
  rename_i small
  have bounded : n ≤ fam.maxSize value := by omega
  split
  · rename_i one
    subst one
    have outcome : AllocateOutcome fam live ledger a thread 1 False
        (w.allocateNode fam a thread env) :=
      ok.allocateOne usable avoids bounded
    generalize w.allocateNode fam a thread env = result at outcome ⊢
    cases outcome with
    | null none _ => cases none
    | node one bounded pooled nonnull ok served node =>
        exact .node one bounded pooled nonnull ok served node
    | run positive bounded routed nonnull ok served run =>
        exact .run positive bounded routed nonnull ok served run
    | throws ok served owned lost =>
        refine .throws ok served owned (lost.trans (iff_of_false (by simp) ?_))
        rintro ⟨_, two, _⟩
        omega
  rename_i several
  have product := Family.le_maxSize_iff.mp bounded
  have multiplied : checkedMul n (fam.sizeOf value) =
      .some (n * fam.sizeOf value) :=
    checkedMul_eq_some.mpr ⟨product, rfl⟩
  have positive : 0 < n * fam.sizeOf value :=
    Nat.mul_pos (by omega) (fam.sizePositive value)
  rw [multiplied]
  dsimp only
  split
  · rename_i cached
    obtain ⟨own, cutoff⟩ := a.canUse_spec cached thread
    have resolution := ok.runsPtr thread env.room usable
    cases result : w.runsPtr fam a thread env.room with
    | mk w₁ result' =>
      rw [result] at resolution
      obtain ⟨⟨resolved, same, made⟩, found⟩ := resolution
      dsimp only at resolved same made found
      cases result' with
      | error exn =>
          have thrown : w.allocateFromTlsRunCache fam a thread env
              (n * fam.sizeOf value) = (w₁, .error exn) := by
            unfold World.allocateFromTlsRunCache
            rw [result]
          rw [thrown]
          refine .throws resolved (.refl ledger) (by simp)
            (iff_of_false (by simp) ?_)
          rintro ⟨_, _, _, _, _, _, resolves, _⟩
          rw [result] at resolves
          cases resolves
      | ok site =>
        have here := found site rfl
        have created := made ⟨site, rfl⟩
        rw [own] at here created
        subst here
        have quiet : ∀ i, (env.os i).Avoids
            (w₁.others fam (.runs (.thread value thread))) := fun i => by
          rw [same.others]
          exact avoids.others _ i
        have outcome := resolved.allocateFromTlsRunCache result quiet created
          positive cutoff
        have orphans : (w₁.tlsPopForOwner value thread
              (tlsClassIndexFor (n * fam.sizeOf value))
              (fam.runsAt (.thread value thread))).2 = 0 ∧
            w₁.RefillFails fam value thread (.thread value thread) env.os
              (tlsClassIndexFor (n * fam.sizeOf value)) ↔
            n ≤ fam.maxSize value ∧ w.LosesRun fam a thread env n := by
          unfold World.LosesRun
          rw [own, result]
          constructor
          · rintro ⟨popped, fails⟩
            exact ⟨bounded, by omega, _, w₁, multiplied, cached, rfl, popped,
              fails⟩
          · rintro ⟨_, _, bytes, w₂, multiplied', _, resolves, popped, fails⟩
            rw [multiplied] at multiplied'
            cases multiplied'
            cases resolves
            exact ⟨popped, fails⟩
        generalize w.allocateFromTlsRunCache fam a thread env
          (n * fam.sizeOf value) = served at outcome ⊢
        have routed : n = 1 → a.mode = .runsOverride := fun one =>
          absurd one several
        cases outcome with
        | @given w₂ p next nonnull ok served created run =>
            dsimp only
            unfold World.allocateRest
            rw [if_pos nonnull]
            rw [← own] at run
            exact .run (by omega) bounded routed nonnull ok served run
        | @null w₂ next ok' served created' confined intact =>
            dsimp only
            unfold World.allocateRest
            rw [if_neg (by simp)]
            have default : a.Usable w₂ := a.usable_of_canUse cached w₂
            have quietNow : (env.os 5).Avoids
                (w₂.others fam (.runs (a.siteOn thread))) := by
              rw [own, confined.others]
              exact quiet 5
            obtain ⟨last, nonnull⟩ :=
              ok'.allocateRun default quietNow product
            have outcome := last.allocate nonnull (by omega) bounded routed
            exact outcome.after served (iff_of_false id fun lost =>
              intact (orphans.mpr lost)) some
        | throws ok served owned lost =>
            rw [← own] at owned
            exact .throws ok served owned (lost.trans orphans)
  · rename_i uncached
    unfold World.allocateRest
    rw [if_neg (by simp)]
    obtain ⟨outcome, nonnull⟩ := ok.allocateRun usable
      (avoids.others (.runs (a.siteOn thread)) 5) product
    refine (outcome.weaken le_rfl (iff_of_false id ?_)).allocate nonnull
      (by omega) bounded fun one => absurd one several
    rintro ⟨_, _, bytes, w₁, multiplied', cached, _⟩
    rw [multiplied] at multiplied'
    cases multiplied'
    exact uncached cached

end WorldOk

end Suballocated

end Allocazam
