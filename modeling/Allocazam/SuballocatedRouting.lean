import Allocazam.SuballocatedClassifier

/-!
# Routes of allocation and deallocation

Allocation and deallocation find the pool or the runner independently of each
other.  They agree for allocators that compare equal, on all threads and for all
counts in between, and for an allocator that was rebound and rebound back.
-/

namespace Allocazam

namespace Suballocated

variable {Value Thread Bound : Type} [DecidableEq Value] [DecidableEq Thread]
  [DecidableEq Bound] {fam : Family Value Thread Bound}
  {w : World Value Thread Bound} {live : List (Item fam)}
  {ledger : Ledger Value Thread Bound} {session : Session fam}
  {item : Item fam} {value other : Value} {m : Nat}

namespace World

variable (fam) (w)

/-- A node goes to the pool of the state: to its free list, or to its remote
stack. -/
def returnNode (site : Site Value Thread Bound) (direct : Prop)
    [Decidable direct] (p : Nat) : World Value Thread Bound :=
  w.setPool site
    (if direct then (w.pool site).deallocate p else (w.pool site).remotePush p)

theorem returnNode_first (site : Site Value Thread Bound) (direct : Prop) [Decidable direct]
    {p : Nat} (nonnull : p ≠ 0) :
    ((w.returnNode site direct p).states site).pool.freeHead = p ∨
      ((w.returnNode site direct p).states site).pool.remoteHead = p := by
  unfold returnNode
  rw [setPool_pool_self]
  split
  · left
    unfold Pool.State.deallocate
    rw [if_neg nonnull]
    rfl
  · exact Or.inr rfl

/-- A run goes to the runner of the state: to its bins, or to its remote
stack. -/
def returnToRunner (site : Site Value Thread Bound) (direct : Prop)
    [Decidable direct] (p : Nat) : World Value Thread Bound :=
  if direct then w.deallocateBytes fam site p else w.remotePush site p

/-- A run goes to the calling thread's class list for the given bytes, stamped
with the runner of the state. -/
def stampInCache (value : Value) (thread : Thread) (bytes : Nat)
    (site : Site Value Thread Bound) (p : Nat) : World Value Thread Bound :=
  (w.drainedForPush fam value thread (tlsClassIndexFor bytes)).tlsPush value
    thread (tlsClassIndexFor bytes) p (fam.runsAt site)

end World

/-- Freeing the allocation through the given allocator returns it to the pool or
to the runner that holds it. -/
def World.Returns (fam : Family Value Thread Bound)
    (w : World Value Thread Bound) (item : Item fam)
    (b : Handle fam item.value) (thread : Thread) (m : Nat) : Prop :=
  (item.IsNode → ∃ site, (∀ other, w.HoldsNode fam other item.ptr ↔
        other = site) ∧
      w.deallocate fam b thread item.ptr m =
        w.returnNode site (site = b.siteOn thread) item.ptr) ∧
    (¬ item.IsNode → ∃ site, (∀ other, w.HoldsRun other item.ptr ↔
        other = site) ∧
      w.deallocate fam b thread item.ptr m =
        if m ≠ 1 ∧ b.canUseTlsRunCache (m * fam.sizeOf item.value) = true then
          w.stampInCache fam item.value thread (m * fam.sizeOf item.value) site
            item.ptr
        else
          w.returnToRunner fam site (site = b.siteOn thread) item.ptr)

namespace WorldOk

variable (ok : WorldOk fam w live ledger)

include ok

theorem returns (member : item ∈ live) {b : Handle fam item.value}
    (equal : b.Equal item.handle) (lower : item.requested ≤ m)
    (upper : m ≤ item.count) (thread : Thread) :
    w.Returns fam item b thread m := by
  rcases ok.item_kind member with ⟨single, site, node, draws, holds⟩ |
    ⟨several, site, run, draws, holds⟩
  · refine ⟨fun _ => ⟨site, holds, ?_⟩, fun several => absurd single several⟩
    rw [ok.deallocate_node member equal lower upper single]
    obtain rfl := equal.eq
    exact ok.freeNodeRouted_eq node draws single.2
  · refine ⟨fun single => absurd single several, fun _ => ⟨site, holds, ?_⟩⟩
    rw [ok.deallocate_run member equal lower upper several]
    have held := (ok.held item.ptr).mpr ⟨item, member, rfl⟩
    obtain rfl := equal.eq
    split
    · exact ok.deallocateToTlsRunCache_eq run (by simp [held]) _
    · exact ok.freeRunRouted_eq run draws

end WorldOk

/-- What `allocate` and `allocate_at_least` return through one allocator goes
back, through any equal one, to the pool or the runner it came from, and as what
it is. -/
theorem routes_agree (reachable : (sessions fam).Reachable session) :
    (∀ value (a : Handle fam value) thread env n w' p,
      session.Allows (.allocate a thread env n) → p ≠ 0 →
      session.world.allocate fam a thread env n = (w', .ok p) →
        (n = 1 ∧ a.mode ≠ .runsOverride ∧
            w'.HoldsNode fam (a.siteOn thread) p) ∨
          ((n = 1 → a.mode = .runsOverride) ∧
            w'.HoldsRun (a.siteOn thread) p ∧
            n * fam.sizeOf value ≤ w'.payloadBytes p)) ∧
    ∀ item ∈ session.live,
      ((∃ site, session.world.HoldsNode fam site item.ptr) ↔ item.IsNode) ∧
      ((∃ site, session.world.HoldsRun site item.ptr) ↔ ¬ item.IsNode) ∧
      ∀ (b : Handle fam item.value) thread m, b.Equal item.handle →
        item.requested ≤ m → m ≤ item.count →
          session.world.Returns fam item b thread m := by
  obtain ⟨ledger, ok⟩ := sessions_inductive.reachable reachable
  have world := ok.world
  constructor
  · rintro value a thread env n w' p ⟨_, usable, avoids, _⟩ nonnull result
    have some : n ≠ 0 := by
      rintro rfl
      cases result
      exact nonnull rfl
    exact world.allocate_source usable avoids some result
  · intro item member
    refine ⟨?_, ?_, fun b thread m equal lower upper =>
      world.returns member equal lower upper thread⟩
    · rcases world.item_kind member with ⟨single, site, _, _, holds⟩ |
        ⟨several, site, _, _, holds⟩
      · exact iff_of_true ⟨site, (holds site).mpr rfl⟩ single
      · refine iff_of_false ?_ several
        rintro ⟨other, node⟩
        exact world.holdsNode_not_run node ((holds site).mpr rfl)
    · rcases world.item_kind member with ⟨single, site, _, _, holds⟩ |
        ⟨several, site, _, _, holds⟩
      · refine iff_of_false ?_ (not_not_intro single)
        rintro ⟨other, run⟩
        exact world.holdsNode_not_run ((holds site).mpr rfl) run
      · exact iff_of_true ⟨site, (holds site).mpr rfl⟩ several

theorem fixedSession_returns :
    fixedSession.world.Returns fixedFamily
      ⟨false, fixedHandle, 2, 2, 65552⟩ fixedHandle true 2 :=
  ((routes_agree fixedSession_reachable).2 _ fixedSession_mem).2.2 fixedHandle
    true 2 ⟨rfl, rfl⟩ le_rfl le_rfl

theorem World.deallocate_override {site : Site Value Thread Bound}
    {thread : Thread} {p : Nat} (nonnull : p ≠ 0) (some : m ≠ 0) :
    w.deallocate fam (.runsOverride site : Handle fam value) thread p m =
      w.deallocateBytes fam site p := by
  have routed : w.freeRunRouted fam (.runsOverride site : Handle fam value)
      thread p = w.deallocateBytes fam site p := rfl
  have uncached : ∀ bytes, (Handle.runsOverride site :
      Handle fam value).canUseTlsRunCache bytes = false := by
    simp [Handle.canUseTlsRunCache, Handle.mode]
  unfold World.deallocate
  rw [if_neg (not_or.mpr ⟨nonnull, some⟩), routed]
  split
  · rw [if_neg (by simp [Handle.mode, Handle.state])]
  · cases checkedMul m (fam.sizeOf value) with
    | none => rfl
    | some bytes =>
        dsimp only
        rw [uncached]
        rfl

/-- Rebinding and rebinding back gives an equal allocator, except that an
allocator bound to a state becomes one bound to the state's runner.  Through it
runs return to where they came from, and so do nodes unless the state is gone. -/
theorem rebind_returns (reachable : (sessions fam).Reachable session) :
    (∀ value other (a : Handle fam value),
      (a.mode ≠ .explicitState →
          ((a.rebind : Handle fam other).rebind : Handle fam value).Equal a) ∧
        ∀ site typed, a = .explicitState site typed →
          ((a.rebind : Handle fam other).rebind : Handle fam value) =
            .runsOverride site) ∧
    ∀ item ∈ session.live, item.requested = item.count → ∀ other thread,
      (item.handle.mode = .explicitState → item.count ≠ 1) →
        session.world.Returns fam item
          ((item.handle.rebind : Handle fam other).rebind :
            Handle fam item.value) thread item.count := by
  obtain ⟨ledger, ok⟩ := sessions_inductive.reachable reachable
  have world := ok.world
  have round : ∀ value other (a : Handle fam value),
      a.mode ≠ .explicitState →
        ((a.rebind : Handle fam other).rebind : Handle fam value).Equal a := by
    intro value other a unbound
    cases a with
    | defaultState stateless => exact ⟨rfl, rfl⟩
    | explicitState site typed => exact absurd rfl unbound
    | runsOverride site => exact ⟨rfl, rfl⟩
  refine ⟨fun value other a => ⟨round value other a, ?_⟩, ?_⟩
  · rintro site typed rfl
    rfl
  intro item member whole other thread several
  by_cases bound : item.handle.mode = .explicitState
  · obtain ⟨site, typed, handle⟩ : ∃ site typed,
        item.handle = .explicitState site typed := by
      cases handle : item.handle with
      | defaultState => rw [handle] at bound; cases bound
      | explicitState site typed => exact ⟨site, typed, rfl⟩
      | runsOverride => rw [handle] at bound; cases bound
    have notNode : ¬ item.IsNode := fun single => several bound single.1
    refine ⟨fun single => absurd single notNode, fun _ => ?_⟩
    rcases world.item_kind member with ⟨single, _⟩ | ⟨_, owner, _, draws, holds⟩
    · exact absurd single notNode
    have asked := (world.items item member).asked
    rw [handle] at draws ⊢
    obtain rfl : owner = site := draws
    refine ⟨owner, holds, ?_⟩
    have back : ((Handle.explicitState owner typed : Handle fam
        item.value).rebind : Handle fam other).rebind =
          (Handle.runsOverride owner : Handle fam item.value) := rfl
    rw [back, World.deallocate_override (world.ptr_ne_zero member) (by omega)]
    rw [if_neg fun cached => by
      have mode := cached.2
      simp [Handle.canUseTlsRunCache, Handle.mode] at mode]
    exact (if_pos rfl).symm
  · exact world.returns member (round _ other item.handle bound)
      whole.le le_rfl thread

def boundHandle : Handle fixedFamily false :=
  .explicitState (.bound ()) rfl

def reboundHandle : Handle fixedFamily false :=
  (boundHandle.rebind : Handle fixedFamily true).rebind

def boundStart : Session fixedFamily :=
  (sampleStart fixedFamily).perform
    (.construct () Pool.exhausted Runner.refusing .deferred)

/-- A node has been allocated from the pool of the bound state. -/
def boundSession : Session fixedFamily :=
  boundStart.perform (.allocate boundHandle false nodeEnvironment 1)

def boundItem : Item fixedFamily :=
  ⟨false, boundHandle, 1, 1, 1081480⟩

theorem boundSession_served :
    (boundStart.world.allocate fixedFamily boundHandle false nodeEnvironment 1).2 = .ok 1081480 ∧
      boundStart.world.Below fixedFamily (2 ^ 20) ∧
      ∀ site ∈ sampleSites, (boundSession.world.states site).pool.freeHead ≠ 1081480 ∧
        (boundSession.world.states site).pool.remoteHead ≠ 1081480 := by
  unfold World.Below
  decide +kernel

theorem boundSession_reachable : (sessions fixedFamily).Reachable boundSession := by
  have start : (sessions fixedFamily).Reachable boundStart :=
    .step (sampleStart_reachable _) (.call _ ⟨rfl, rfl⟩)
  refine .step start (.call _ ⟨rfl, ?_, environmentAt_avoids boundSession_served.2.1.inUse,
    by decide⟩)
  rintro site (⟨⟨⟩⟩ | ⟨⟨⟩⟩)
  rfl

theorem boundItem_mem : boundItem ∈ boundSession.live :=
  Session.mem_perform_allocate boundSession_served.1 (by decide)

/-- The allocator of a bound state does not come back from a round trip, and what does takes
a node of that state's pool for a run of its runner. -/
theorem boundHandle_rebound :
    ¬ reboundHandle.Equal boundHandle ∧
      (sessions fixedFamily).Reachable boundSession ∧ boundItem ∈ boundSession.live ∧
      boundSession.world.deallocate fixedFamily reboundHandle false 1081480 1 =
        boundSession.world.deallocateBytes fixedFamily (.bound ()) 1081480 ∧
      ¬ boundSession.world.Returns fixedFamily boundItem reboundHandle false 1 := by
  have taken : boundSession.world.deallocate fixedFamily reboundHandle false 1081480 1 =
      boundSession.world.deallocateBytes fixedFamily (.bound ()) 1081480 :=
    World.deallocate_override (by decide) (by decide)
  refine ⟨?_, boundSession_reachable, boundItem_mem, taken, ?_⟩
  · rintro ⟨state, _⟩
    cases state
  · intro returns
    obtain ⟨site, _, returned⟩ := returns.1 ⟨rfl, fun override => by cases override⟩
    obtain ⟨free, remote⟩ := boundSession_served.2.2 site (mem_sampleSites site)
    -- The pools are as they were, whereas a node that has come back is first in a list.
    have kept : ((boundSession.world.deallocateBytes fixedFamily (.bound ())
        1081480).states site).pool = (boundSession.world.states site).pool :=
      World.setRuns_pool _
    rw [taken.symm.trans returned] at kept
    rcases boundSession.world.returnNode_first site (site = reboundHandle.siteOn false)
      (show boundItem.ptr ≠ 0 by decide) with first | first
    · exact free ((congrArg Pool.Members.freeHead kept).symm.trans first)
    · exact remote ((congrArg Pool.Members.remoteHead kept).symm.trans first)

theorem fixedSession_rebound :
    fixedSession.world.Returns fixedFamily
      ⟨false, fixedHandle, 2, 2, 65552⟩
      ((fixedHandle.rebind : Handle fixedFamily true).rebind) false 2 :=
  (rebind_returns fixedSession_reachable).2 _ fixedSession_mem rfl true false
    fun _ => by decide

end Suballocated

end Allocazam
