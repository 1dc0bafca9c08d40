import Allocazam.PoolSafety
import Allocazam.SuballocatedObservation

/-!
# The expand classifier

A default allocator asked to expand an allocation finds out whose it is.  The
word in front of a node may be anything, the address of a runner included; the
answer is the same.
-/

namespace Allocazam

namespace Suballocated

variable {Value Thread Bound : Type} [DecidableEq Value] [DecidableEq Thread]
  [DecidableEq Bound] {fam : Family Value Thread Bound}

/-- Every allocation is a node of one pool or a run of one runner.  A default
allocator expands the runs of the calling thread's own runner, reports the size
of a value for the nodes of its pool, and for all others reports zero and
changes nothing. -/
theorem expand_classified {session : Session fam}
    (reachable : (sessions fam).Reachable session) {item : Item fam}
    (member : item ∈ session.live) (stateless : fam.stateless = true)
    (value : Value) (thread : Thread) (minNewBytes : Nat) :
    let w := session.world
    let here := Site.thread value thread
    let a : Handle fam value := .defaultState stateless
    ((∃ site, (∀ other, w.HoldsNode fam other item.ptr ↔ other = site) ∧
          ∀ other, ¬ w.HoldsRun other item.ptr) ∨
        ∃ site, (∀ other, w.HoldsRun other item.ptr ↔ other = site) ∧
          ∀ other, ¬ w.HoldsNode fam other item.ptr) ∧
      (∀ site, w.HoldsNode fam site item.ptr →
        w.expand fam a thread item.ptr minNewBytes =
          (w, if site = here then fam.sizeOf value else 0)) ∧
      (∀ site, w.HoldsRun site item.ptr →
        w.expand fam a thread item.ptr minNewBytes =
          if site = here then w.expandRun fam here item.ptr minNewBytes
          else (w, 0)) ∧
      (w.created here = false →
        w.expand fam a thread item.ptr minNewBytes = (w, 0)) ∧
      (w.expand fam a thread item.ptr minNewBytes).1.created = w.created := by
  obtain ⟨ledger, ok⟩ := sessions_inductive.reachable reachable
  have world := ok.world
  rcases world.item_kind member with ⟨_, site, node, _, holds⟩ |
    ⟨_, site, run, _, holds⟩
  · have here := (holds site).mpr rfl
    have classified : session.world.expand fam
        (Handle.defaultState stateless : Handle fam value) thread item.ptr
          minNewBytes =
        (session.world,
          if site = .thread value thread then fam.sizeOf value else 0) :=
      world.expand_node stateless node
    refine ⟨Or.inl ⟨site, holds, fun other => world.holdsNode_not_run here⟩,
      fun other again => ?_, fun other again => ?_, fun missing => ?_, ?_⟩
    · rw [(holds other).mp again]
      exact classified
    · exact absurd again (world.holdsNode_not_run here)
    · rw [classified, if_neg]
      rintro rfl
      rw [world.created_of_node node] at missing
      cases missing
    · rw [classified]
  · have here := (holds site).mpr rfl
    have classified : session.world.expand fam
        (Handle.defaultState stateless : Handle fam value) thread item.ptr
          minNewBytes =
        if site = .thread value thread then
          session.world.expandRun fam (.thread value thread) item.ptr minNewBytes
        else (session.world, 0) :=
      world.expand_run stateless run
    have notNode : ∀ other, ¬ session.world.HoldsNode fam other item.ptr :=
      fun other node => world.holdsNode_not_run node here
    refine ⟨Or.inr ⟨site, holds, notNode⟩, fun other again => ?_,
      fun other again => ?_, fun missing => ?_, ?_⟩
    · exact absurd again (notNode other)
    · rw [(holds other).mp again]
      exact classified
    · rw [classified, if_neg]
      rintro rfl
      rw [world.created_of_run run] at missing
      cases missing
    · rw [classified]
      split <;> rfl

/-- Where the states of the program lie: one value type with the given size and
one word type, two threads and one bound state. -/
def sampleAddress : Site Bool Bool Unit → Nat
  | .thread false false => 16
  | .thread false true => 32
  | .thread true false => 48
  | .thread true true => 64
  | .bound () => 80

def sampleSite : Nat → Site Bool Bool Unit
  | 16 => .thread false false
  | 32 => .thread false true
  | 48 => .thread true false
  | 64 => .thread true true
  | _ => .bound ()

theorem sampleSite_sampleAddress (site : Site Bool Bool Unit) :
    sampleSite (sampleAddress site) = site := by
  rcases site with ⟨_ | _, _ | _⟩ | ⟨⟩ <;> rfl

def sampleFamily (mode : MemoryMode) (pageBits : Nat)
    (page : 4 ≤ pageBits ∧ pageBits < 64) (size : Nat)
    (bounds : 0 < size ∧ size ≤ 8) : Family Bool Bool Unit where
  mode := mode
  huge := false
  pageSize := 2 ^ pageBits
  sizeOf value := if value then 8 else size
  alignOf value := if value then 8 else 1
  boundValue _ := false
  poolAt := sampleAddress
  runsAt := sampleAddress
  poolOf := sampleSite
  runsOf := sampleSite
  pageBits := ⟨pageBits, page.1, page.2, rfl⟩
  sizePositive value := by split <;> omega
  alignBits value := by
    cases value
    · exact ⟨0, rfl⟩
    · exact ⟨3, rfl⟩
  nodeBound value := by
    have bytes : Pool.nodeBytes (if value then 8 else size)
        (if value then 8 else 1) = 8 := by
      cases value
      · show (max size 8 + 8 - 1) / 8 * 8 = 8
        rw [max_eq_right bounds.2]
      · show (max 8 8 + max 8 8 - 1) / max 8 8 * max 8 8 = 8
        decide
    have offset : Pool.headerOffset (if value then 8 else 1) = 16 := by
      cases value <;> rfl
    rw [bytes, offset]
    decide
  poolOf_poolAt := sampleSite_sampleAddress
  runsOf_runsAt := sampleSite_sampleAddress
  runsNonnull site := by rcases site with ⟨_ | _, _ | _⟩ | ⟨⟨⟩⟩ <;> decide

/-- An operating system with memory from `base` on, for small requests. -/
def grantingFrom (base : Nat) (positive : 0 < base) (aligned : 16 ∣ base)
    (bounded : base + 2 ^ 20 ≤ 2 ^ 64) : Runner.Os where
  grant := Runner.offered base
  sound _ _ _ := Runner.offered_sound ⟨positive, aligned, bounded⟩

def sampleEnvironment : Environment where
  room := true
  heap := Pool.exhausted
  os _ := grantingFrom 65536 (by decide) (by decide) (by decide)

def sampleStart (fam : Family Bool Bool Unit) : Session fam :=
  ⟨World.initial fam fun _ => 0, [], fun _ _ => false⟩

theorem sampleStart_reachable (fam : Family Bool Bool Unit) :
    (sessions fam).Reachable (sampleStart fam) :=
  .start ⟨_, rfl⟩

/-- At the start there is no memory in use. -/
theorem sampleStart_avoids {fam : Family Bool Bool Unit} (env : Environment) :
    env.Avoids ((sampleStart fam).world.inUse fam) := by
  have none : (sampleStart fam).world.inUse fam = ∅ := by
    apply Set.eq_empty_of_forall_notMem
    rintro addr ⟨tenant, owned⟩
    rw [show (sampleStart fam).world = World.initial fam fun _ => 0 from rfl,
      territory_initial] at owned
    exact owned
  rw [none]
  exact ⟨fun _ empty => absurd empty (by simp), by simp [Runner.Os.Avoids]⟩

/-- At the start every allocator without an explicit state may allocate. -/
theorem sampleStart_permits {fam : Family Bool Bool Unit}
    (stateless : fam.stateless = true) (value thread : Bool) {n : Nat}
    (bounded : n < 2 ^ 64) :
    (sampleStart fam).Allows (.allocate
      (.defaultState stateless : Handle fam value) thread sampleEnvironment n) := by
  refine ⟨rfl, ?_, sampleStart_avoids _, bounded⟩
  rintro site (⟨⟨⟩⟩ | ⟨⟨⟩⟩)

theorem eq_of_snd {α β : Type} {result : α × β} {b : β} (same : result.2 = b) :
    result = (result.1, b) :=
  Prod.ext rfl same

theorem Session.alive_perform_allocate {value value' : Value} {session : Session fam}
    {a : Handle fam value} {thread thread' : Thread} {env : Environment} {n : Nat}
    (alive : session.exited value' thread' = false) :
    (session.perform (.allocate a thread env n)).exited value' thread' = false := by
  rw [Session.perform_allocate]
  generalize session.world.allocate fam a thread env n = outcome
  obtain ⟨w, exn | p⟩ := outcome
  · exact alive
  · exact alive

theorem Session.alive_perform_deallocate {value : Value} {session : Session fam}
    {item : Item fam} {b : Handle fam item.value} {thread thread' : Thread} {m : Nat}
    (alive : session.exited value thread' = false) :
    (session.perform (.deallocate item b thread m)).exited value thread' = false :=
  alive

theorem Session.alive_perform_exit {value value' : Value} {session : Session fam}
    {thread thread' : Thread} (alive : session.exited value' thread' = false)
    (other : (value', thread') ≠ (value, thread)) :
    (session.perform (.exit value thread)).exited value' thread' = false := by
  show Function.update session.exited value _ value' thread' = false
  by_cases same : value' = value
  · subst same
    rw [Function.update_self, Function.update_of_ne fun equal => other (by rw [equal])]
    exact alive
  · rw [Function.update_of_ne same]
    exact alive

omit [DecidableEq Value] [DecidableEq Thread] [DecidableEq Bound] in
theorem Session.live_write (session : Session fam) (addr written : Nat) :
    ({ session with world := session.world.write addr written } : Session fam).live =
      session.live :=
  rfl

theorem Session.kept_perform_deallocate {session : Session fam} {item freed : Item fam}
    {b : Handle fam freed.value} {thread : Thread} {m : Nat} (member : item ∈ session.live)
    (other : item.ptr ≠ freed.ptr) :
    item ∈ (session.perform (.deallocate freed b thread m)).live :=
  List.mem_filter.mpr ⟨member, decide_eq_true other⟩

theorem Session.kept_perform_exit {session : Session fam} {item : Item fam}
    {value : Value} {thread : Thread} (member : item ∈ session.live) :
    item ∈ (session.perform (.exit value thread)).live :=
  member

theorem Session.kept_perform_allocate {value : Value} {session : Session fam}
    {a : Handle fam value} {thread : Thread} {env : Environment} {n : Nat} {item : Item fam}
    (member : item ∈ session.live) :
    item ∈ (session.perform (.allocate a thread env n)).live := by
  rw [Session.perform_allocate]
  generalize session.world.allocate fam a thread env n = outcome
  obtain ⟨w, exn | p⟩ := outcome
  · exact member
  · unfold Session.finish Session.record
    dsimp only
    split
    · exact member
    · exact List.mem_cons_of_mem _ member

theorem Session.mem_perform_allocate {value : Value} {session : Session fam}
    {a : Handle fam value} {thread : Thread} {env : Environment} {n p : Nat}
    (result : (session.world.allocate fam a thread env n).2 = .ok p)
    (nonnull : p ≠ 0) :
    (⟨value, a, n, n, p⟩ : Item fam) ∈
      (session.perform (.allocate a thread env n)).live := by
  rw [Session.perform_allocate]
  generalize session.world.allocate fam a thread env n = outcome at result ⊢
  obtain ⟨w, exn | q⟩ := outcome
  · cases result
  · cases result
    unfold Session.finish Session.record
    dsimp only
    rw [if_neg nonnull]
    exact List.mem_cons_self

theorem samplePage : 4 ≤ 12 ∧ 12 < 64 := by decide

theorem sampleSize : 0 < 1 ∧ 1 ≤ 8 := by decide

/-- A fixed allocator for bytes. -/
def fixedFamily : Family Bool Bool Unit :=
  sampleFamily .fixed 12 samplePage 1 sampleSize

def fixedHandle : Handle fixedFamily false :=
  .defaultState rfl

def fixedSession : Session fixedFamily :=
  (sampleStart fixedFamily).perform
    (.allocate fixedHandle false sampleEnvironment 2)

theorem fixedSession_reachable :
    (sessions fixedFamily).Reachable fixedSession :=
  .step (sampleStart_reachable _)
    (.call _ (sampleStart_permits rfl false false (by decide)))

theorem fixedSession_mem :
    (⟨false, fixedHandle, 2, 2, 65552⟩ : Item fixedFamily) ∈
      fixedSession.live := by
  apply Session.mem_perform_allocate
  · decide +kernel
  · decide

theorem fixedSession_alive (value thread : Bool) :
    fixedSession.exited value thread = false := by
  rw [fixedSession]
  exact Session.alive_perform_allocate rfl

theorem fixedSession_frees : fixedSession.Allows
    (.deallocate ⟨false, fixedHandle, 2, 2, 65552⟩ fixedHandle true 2) :=
  ⟨fixedSession_alive _ true, fixedSession_mem, ⟨rfl, rfl⟩, le_rfl, le_rfl⟩

/-- The system has nothing left. -/
def refusingEnvironment : Environment where
  room := false
  heap := Pool.exhausted
  os _ := Runner.refusing

theorem refusingEnvironment_avoids (inUse : Set Nat) :
    refusingEnvironment.Avoids inUse :=
  ⟨fun _ _ => trivial, fun _ _ _ _ granted => by cases granted⟩

/-- A system with memory from `base` on, of which nothing below is free. -/
def environmentAt (base : Nat) (bounds : 0 < base ∧ 16 ∣ base ∧ base + 2 ^ 21 ≤ 2 ^ 64) :
    Environment where
  room := true
  heap := Pool.memoryAt base ⟨bounds.1, by omega⟩
  os _ := grantingFrom (base + 2 ^ 20) (by omega) (by omega) (by omega)

theorem environmentAt_avoids {base : Nat} {inUse : Set Nat}
    {bounds : 0 < base ∧ 16 ∣ base ∧ base + 2 ^ 21 ≤ 2 ^ 64}
    (below : ∀ addr ∈ inUse, addr < base) : (environmentAt base bounds).Avoids inUse where
  heap := below
  os i chunks bytes found granted addr lower _ member := by
    have bounded := below addr member
    unfold environmentAt grantingFrom Runner.offered at granted
    dsimp only at granted
    split at granted
    · have first := Option.some.inj granted
      omega
    · cases granted

def sampleSites : List (Site Bool Bool Unit) :=
  [.thread false false, .thread false true, .thread true false, .thread true true, .bound ()]

theorem mem_sampleSites (site : Site Bool Bool Unit) : site ∈ sampleSites := by
  rcases site with ⟨_ | _, _ | _⟩ | ⟨⟨⟩⟩ <;> simp [sampleSites]

def World.Below (fam : Family Bool Bool Unit) (w : World Bool Bool Unit) (bound : Nat) : Prop :=
  ∀ site ∈ sampleSites,
    (∀ chunk ∈ (w.states site).pool.chunks,
      chunk.nodes + chunk.bytes (fam.poolConfig site) ≤ bound) ∧
    ∀ chunk ∈ (w.states site).runs.chunks, chunk.first + chunk.bytes ≤ bound

theorem World.Below.inUse {fam : Family Bool Bool Unit} {w : World Bool Bool Unit}
    {base : Nat} (below : w.Below fam base) : ∀ addr ∈ w.inUse fam, addr < base := by
  rintro addr ⟨site | site, chunk, member, _, upper⟩
  · exact upper.trans_le ((below site (mem_sampleSites site)).1 chunk member)
  · exact upper.trans_le ((below site (mem_sampleSites site)).2 chunk member)

def nodeEnvironment : Environment :=
  environmentAt (2 ^ 20) (by decide)

/-- A thread has two nodes, one right after the other. -/
def guestSession : Session fixedFamily :=
  ((sampleStart fixedFamily).perform (.allocate fixedHandle true nodeEnvironment
    1)).perform (.allocate fixedHandle true refusingEnvironment 1)

/-- The other thread has a node. -/
def homeSession : Session fixedFamily :=
  guestSession.perform (.allocate fixedHandle false (environmentAt (2 ^ 22) (by decide)) 1)

/-- And a run. -/
def sharedSession : Session fixedFamily :=
  homeSession.perform (.allocate fixedHandle false (environmentAt (2 ^ 24) (by decide)) 2)

/-- The first thread has written the address of the other one's runner to the node in
front. -/
def collidingSession : Session fixedFamily :=
  { sharedSession with world := sharedSession.world.write 1081472 16 }

def fixedItem (count ptr : Nat) : Item fixedFamily :=
  ⟨false, fixedHandle, count, count, ptr⟩

theorem fixedHandle_allows {session : Session fixedFamily} {thread : Bool}
    {env : Environment} {n : Nat} (alive : session.exited false thread = false)
    (avoids : env.Avoids (session.world.inUse fixedFamily)) (bounded : n < 2 ^ 64) :
    session.Allows (.allocate fixedHandle thread env n) := by
  refine ⟨alive, ?_, avoids, bounded⟩
  rintro site (⟨⟨⟩⟩ | ⟨⟨⟩⟩)

theorem guestSession_alive (value thread : Bool) :
    guestSession.exited value thread = false := by
  rw [guestSession]
  exact Session.alive_perform_allocate (Session.alive_perform_allocate rfl)

theorem homeSession_alive (value thread : Bool) :
    homeSession.exited value thread = false := by
  rw [homeSession]
  exact Session.alive_perform_allocate (guestSession_alive value thread)

theorem sharedSession_evaluated :
    sharedSession.live = [fixedItem 2 17825808, fixedItem 1 4227208, fixedItem 1 1081472,
        fixedItem 1 1081480] ∧
      guestSession.world.Below fixedFamily (2 ^ 22) ∧
      homeSession.world.Below fixedFamily (2 ^ 24) ∧
      (collidingSession.world.states (.thread false false)).pool.chunks =
        [⟨4096, 4096, 4194304⟩] ∧
      (collidingSession.world.states (.thread false true)).pool.chunks =
        [⟨4096, 4096, 1048576⟩] ∧
      (collidingSession.world.runs (.thread false false)).Allocated 17825792 48 ∧
      collidingSession.world.ownerOf 1081480 = fixedFamily.runsAt (.thread false false) ∧
      collidingSession.world.created (.thread true false) = false := by
  unfold World.Below Runner.State.Allocated
  decide +kernel

theorem guestSession_reachable : (sessions fixedFamily).Reachable guestSession := by
  refine .step (.step (sampleStart_reachable _) (.call _ (fixedHandle_allows rfl
    (sampleStart_avoids _) (by decide)))) (.call _ (fixedHandle_allows ?_
      (refusingEnvironment_avoids _) (by decide)))
  exact Session.alive_perform_allocate rfl

theorem sharedSession_reachable : (sessions fixedFamily).Reachable sharedSession := by
  obtain ⟨_, low, next, _⟩ := sharedSession_evaluated
  have home : (sessions fixedFamily).Reachable homeSession :=
    .step guestSession_reachable (.call _ (fixedHandle_allows (guestSession_alive false false)
      (environmentAt_avoids low.inUse) (by decide)))
  exact .step home (.call _ (fixedHandle_allows (homeSession_alive false false)
    (environmentAt_avoids next.inUse) (by decide)))

theorem collidingSession_reachable : (sessions fixedFamily).Reachable collidingSession := by
  refine .step sharedSession_reachable (.store 1081472 16 ⟨fixedItem 1 1081472, ?_, le_rfl, ?_⟩)
  · rw [sharedSession_evaluated.1]
    simp
  · exact Or.inl ⟨⟨rfl, fun override => by cases override⟩, by decide⟩

theorem collidingSession_live : collidingSession.live =
    [fixedItem 2 17825808, fixedItem 1 4227208, fixedItem 1 1081472, fixedItem 1 1081480] := by
  rw [collidingSession, Session.live_write]
  exact sharedSession_evaluated.1

theorem World.holdsNode_of_chunk {fam : Family Bool Bool Unit} {w : World Bool Bool Unit}
    {site : Site Bool Bool Unit} {chunk : Pool.Chunk} {i : Nat}
    (chunks : (w.states site).pool.chunks = [chunk]) (inside : i < chunk.count) :
    w.HoldsNode fam site (chunk.nodeAt (fam.poolConfig site) i) :=
  Pool.mem_nodes.mpr ⟨chunk, by simp [chunks], Pool.Chunk.mem_list.mpr ⟨i, inside, rfl⟩⟩

/-- The thread is told the size of a value for its node, and has its run expanded; for the
foreign node it is told nothing, although the address of its own runner is in front of that
node, and without a state a thread is told nothing at all. -/
theorem collidingSession_classified :
    collidingSession.world.expand fixedFamily fixedHandle false 4227208 8 =
        (collidingSession.world, 1) ∧
      collidingSession.world.expand fixedFamily fixedHandle false 17825808 8 =
        collidingSession.world.expandRun fixedFamily (.thread false false) 17825808 8 ∧
      collidingSession.world.ownerOf 1081480 = fixedFamily.runsAt (.thread false false) ∧
      collidingSession.world.expand fixedFamily fixedHandle false 1081480 8 =
        (collidingSession.world, 0) ∧
      collidingSession.world.expand fixedFamily (.defaultState rfl : Handle fixedFamily true)
        false 1081480 8 = (collidingSession.world, 0) := by
  obtain ⟨_, _, _, home, guest, run, collides, missing⟩ := sharedSession_evaluated
  have node : collidingSession.world.HoldsNode fixedFamily (.thread false false) 4227208 :=
    World.holdsNode_of_chunk (i := 4095) home (by decide)
  have foreign : collidingSession.world.HoldsNode fixedFamily (.thread false true) 1081480 :=
    World.holdsNode_of_chunk (i := 4095) guest (by decide)
  have nodeMember : fixedItem 1 4227208 ∈ collidingSession.live := by
    rw [collidingSession_live]
    simp
  have runMember : fixedItem 2 17825808 ∈ collidingSession.live := by
    rw [collidingSession_live]
    simp
  have foreignMember : fixedItem 1 1081480 ∈ collidingSession.live := by
    rw [collidingSession_live]
    simp
  obtain ⟨_, ofNode, _⟩ := expand_classified collidingSession_reachable nodeMember rfl false
    false 8
  obtain ⟨_, _, ofRun, _⟩ := expand_classified collidingSession_reachable runMember rfl false
    false 8
  obtain ⟨_, ofForeign, _⟩ := expand_classified collidingSession_reachable foreignMember rfl
    false false 8
  obtain ⟨_, _, _, ofMissing, _⟩ := expand_classified collidingSession_reachable foreignMember
    rfl true false 8
  refine ⟨(ofNode _ node).trans ?_, (ofRun _ ⟨17825792, 48, run, rfl⟩).trans (if_pos rfl),
    collides, (ofForeign _ foreign).trans ?_, ofMissing missing⟩
  · rw [if_pos rfl]
    rfl
  · rw [if_neg (by decide)]

def dynamicFamily : Family Bool Bool Unit :=
  sampleFamily .dynamic 12 samplePage 1 sampleSize

def dynamicHandle : Handle dynamicFamily false :=
  .defaultState rfl

theorem dynamicHandle_allows (session : Session dynamicFamily) {n : Nat}
    (alive : session.exited false false = false) (bounded : n < 2 ^ 64) :
    session.Allows (.allocate dynamicHandle false refusingEnvironment n) := by
  refine ⟨alive, ?_, refusingEnvironment_avoids _, bounded⟩
  rintro site (⟨⟨⟩⟩ | ⟨⟨⟩⟩)

/-- A thread has allocated a small run, and its cache was refilled. -/
def stockedSession : Session dynamicFamily :=
  (sampleStart dynamicFamily).perform
    (.allocate dynamicHandle false sampleEnvironment 16)

theorem stockedSession_reachable :
    (sessions dynamicFamily).Reachable stockedSession :=
  .step (sampleStart_reachable _)
    (.call _ (sampleStart_permits rfl false false (by decide)))

theorem stockedSession_alive (value thread : Bool) :
    stockedSession.exited value thread = false := by
  rw [stockedSession]
  exact Session.alive_perform_allocate rfl

theorem stockedSession_served :
    (stockedSession.world.classes false false 0).count = 3 ∧
      ((sampleStart dynamicFamily).world.allocate dynamicFamily dynamicHandle false
        sampleEnvironment 16).2 = .ok 65552 ∧
      (stockedSession.world.allocate dynamicFamily dynamicHandle false
        refusingEnvironment 16).2 = .ok 65696 := by
  decide +kernel

/-- The thread has allocated another one, which was in its cache. -/
def pairedSession : Session dynamicFamily :=
  stockedSession.perform (.allocate dynamicHandle false refusingEnvironment 16)

theorem pairedSession_reachable : (sessions dynamicFamily).Reachable pairedSession :=
  .step stockedSession_reachable
    (.call _ (dynamicHandle_allows stockedSession (stockedSession_alive false false)
      (by decide)))

theorem pairedSession_alive (value thread : Bool) :
    pairedSession.exited value thread = false := by
  rw [pairedSession]
  exact Session.alive_perform_allocate (stockedSession_alive value thread)

def dynamicItem (ptr : Nat) : Item dynamicFamily :=
  ⟨false, dynamicHandle, 16, 16, ptr⟩

theorem pairedSession_live :
    pairedSession.live = [dynamicItem 65696, dynamicItem 65552] := by
  decide +kernel

theorem pairedSession_frees : pairedSession.Allows
    (.deallocate (dynamicItem 65696) dynamicHandle true 16) :=
  ⟨pairedSession_alive _ true,
    by rw [pairedSession_live]; exact List.mem_cons_self, ⟨rfl, rfl⟩, le_rfl, le_rfl⟩

end Suballocated

end Allocazam
