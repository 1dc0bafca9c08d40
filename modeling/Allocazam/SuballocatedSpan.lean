import Allocazam.NoheapSpan
import Allocazam.SuballocatedClassifier

/-!
# States on a span

A `noheap` state lies on memory of its user.  Constructed from one span, it gives
the first half to its pool and the second half to its runner.
-/

namespace Allocazam

namespace Suballocated

variable {Value Thread Bound : Type}

/-- A state, the memory that it works on, and what its users hold. -/
structure SpanSession where
  mem : Nat → Nat
  state : StdState
  nodes : List Nat
  allocations : List Runner.Allocation

namespace SpanSession

variable (session : SpanSession)

def pool : Pool.Session :=
  ⟨{ session.state.pool with mem := session.mem }, session.nodes⟩

def runs : Runner.Session :=
  ⟨{ session.state.runs with mem := session.mem }, session.allocations⟩

def withPool (pool : Pool.Session) : SpanSession where
  mem := pool.state.mem
  state := { session.state with pool := pool.state.toMembers }
  nodes := pool.live
  allocations := session.allocations

def withRuns (runs : Runner.Session) : SpanSession where
  mem := runs.state.mem
  state := { session.state with runs := runs.state.toAllocator }
  nodes := session.nodes
  allocations := runs.live

end SpanSession

section Construction

variable (fam : Family Value Thread Bound) (site : Site Value Thread Bound)
  (mem : Nat → Nat)

/-- `allocazam_std_state(std::span<std::byte> node_backing,
std::span<std::byte> run_backing)`. -/
def constructSpans (nodeData nodeSize runData runSize : Nat) :
    Except Exn SpanSession :=
  match Pool.State.constructExternal (fam.poolConfig site) mem nodeData nodeSize with
  | .error exn => .error exn
  | .ok pool =>
      match Runner.State.constructExternal pool.mem runData runSize with
      | .error exn => .error exn
      | .ok runs => .ok ⟨runs.mem, ⟨pool.toMembers, runs.toAllocator⟩, [], []⟩

/-- `allocazam_std_state(std::span<std::byte> backing)` on `[data, data + size)`. -/
def constructSpan (data size : Nat) : Except Exn SpanSession :=
  constructSpans fam site mem data (size / 2) (data + size / 2) (size - size / 2)

end Construction

/-- A call of a member of the pool or of the runner, or a user writing to what it
holds. -/
inductive SpanSteps (fam : Family Value Thread Bound)
    (site : Site Value Thread Bound) : SpanSession → SpanSession → Prop
  | pool {session : SpanSession} {pool : Pool.Session}
      (moves : Pool.Steps (fam.poolConfig site) session.pool pool) :
      SpanSteps fam site session (session.withPool pool)
  | runs {session : SpanSession} {runs : Runner.Session}
      (moves : Runner.Moves (fam.runsConfig site) session.runs runs) :
      SpanSteps fam site session (session.withRuns runs)

section Configuration

variable {fam : Family Value Thread Bound} (noheap : fam.mode = MemoryMode.noheap)
  (site : Site Value Thread Bound)

include noheap

theorem noheap_poolConfig : (fam.poolConfig site).heapBacked = false := by
  show (fam.mode != MemoryMode.noheap) = false
  rw [noheap]
  rfl

theorem noheap_runsConfig : (fam.runsConfig site).canGrow = false := by
  show (fam.mode == MemoryMode.dynamic) = false
  rw [noheap]
  rfl

end Configuration

/-- The pool keeps to its chunk in the first half of the span and the runner to its
chunk in the second half. -/
structure SpanOk (fam : Family Value Thread Bound) (site : Site Value Thread Bound)
    (data size : Nat) (poolChunk : Pool.Chunk) (runChunk : Runner.ChunkNode)
    (session : SpanSession) : Prop where
  pool : ∃ slots deferred free parked,
    Pool.SessionOk (fam.poolConfig site) slots deferred session.pool free parked
  runs : Runner.SessionOk (fam.runsConfig site) session.runs
  poolChunks : session.state.pool.chunks = [poolChunk]
  runChunks : session.state.runs.chunks = [runChunk]
  deferred : session.state.runs.deferredBytes = 0
  poolWithin : data ≤ poolChunk.nodes ∧
    poolChunk.nodes + poolChunk.bytes (fam.poolConfig site) ≤ data + size / 2
  runWithin : data + size / 2 ≤ runChunk.first ∧
    runChunk.first + runChunk.bytes ≤ data + size

namespace SpanOk

variable {fam : Family Value Thread Bound} {site : Site Value Thread Bound}
  {data size : Nat} {poolChunk : Pool.Chunk} {runChunk : Runner.ChunkNode}
  {session next : SpanSession}
  (ok : SpanOk fam site data size poolChunk runChunk session)

include ok

theorem pool_footprint {addr : Nat}
    (owned : addr ∈ session.pool.state.footprint (fam.poolConfig site)) :
    data ≤ addr ∧ addr < data + size / 2 := by
  obtain ⟨chunk, member, lower, upper⟩ := owned
  have same : chunk = poolChunk := by
    have listed : chunk ∈ session.state.pool.chunks := member
    rw [ok.poolChunks] at listed
    exact List.mem_singleton.mp listed
  subst same
  have within := ok.poolWithin
  omega

theorem runs_footprint {addr : Nat} (owned : addr ∈ session.runs.state.footprint) :
    data + size / 2 ≤ addr ∧ addr < data + size := by
  obtain ⟨chunk, member, lower, upper⟩ := owned
  have same : chunk = runChunk := by
    have listed : chunk ∈ session.state.runs.chunks := member
    rw [ok.runChunks] at listed
    exact List.mem_singleton.mp listed
  subst same
  have within := ok.runWithin
  omega

theorem node_within {n : Nat} (held : n ∈ session.nodes) :
    data ≤ n ∧ n + (fam.poolConfig site).nodeBytes ≤ data + size / 2 := by
  obtain ⟨_, _, _, _, pool⟩ := ok.pool
  have inside := pool.balanced.laid.nodeRange_subset (pool.live_node held)
  have node := (fam.poolConfig site).nodeBytes_spec.2
  have first := ok.pool_footprint (inside ⟨le_rfl, by omega⟩)
  have inNode : n + (fam.poolConfig site).nodeBytes - 1 ∈
      (fam.poolConfig site).nodeRange n := ⟨by omega, by omega⟩
  have last := ok.pool_footprint (inside inNode)
  omega

theorem allocation_within {allocation : Runner.Allocation}
    (held : allocation ∈ session.allocations) :
    data + size / 2 + 16 ≤ allocation.payload ∧
      session.runs.stop allocation ≤ data + size := by
  obtain ⟨large, _, above, _, _, inside⟩ := ok.runs.payload_spec held
  have stopEq : session.runs.stop allocation = allocation.payload +
    session.runs.state.payloadBytes allocation.payload := rfl
  have first := ok.runs_footprint
    (inside (allocation.payload - 16) le_rfl (by omega))
  have last := ok.runs_footprint
    (inside (session.runs.stop allocation - 1) (by omega) (by omega))
  omega

theorem pool_step (noheap : fam.mode = MemoryMode.noheap) {pool : Pool.Session}
    (moves : Pool.Steps (fam.poolConfig site) session.pool pool) :
    SpanOk fam site data size poolChunk runChunk (session.withPool pool) ∧
      ∀ addr, ¬ (data ≤ addr ∧ addr < data + size / 2) →
        pool.state.mem addr = session.mem addr := by
  have raw := noheap_poolConfig noheap site
  obtain ⟨slots, deferred, free, parked, inv⟩ := ok.pool
  obtain ⟨chunks, kept⟩ := moves.confined raw inv
  have outside : ∀ addr, ¬ (data ≤ addr ∧ addr < data + size / 2) →
      pool.state.mem addr = session.mem addr :=
    fun addr apart => kept addr fun owned => apart (ok.pool_footprint owned)
  refine ⟨?_, outside⟩
  exact
    { pool := ⟨slots, deferred,
        Pool.sessions_inductive.step _ _ ⟨free, parked, inv⟩ moves⟩
      runs := by
        apply ok.runs.framed
        intro addr owned
        have upper := ok.runs_footprint owned
        exact outside addr (by omega)
      poolChunks := chunks.trans ok.poolChunks
      runChunks := ok.runChunks
      deferred := ok.deferred
      poolWithin := ok.poolWithin
      runWithin := ok.runWithin }

theorem runs_step (noheap : fam.mode = MemoryMode.noheap) {runs : Runner.Session}
    (moves : Runner.Moves (fam.runsConfig site) session.runs runs) :
    SpanOk fam site data size poolChunk runChunk (session.withRuns runs) ∧
      ∀ addr, ¬ (data + size / 2 ≤ addr ∧ addr < data + size) →
        runs.state.mem addr = session.mem addr := by
  have fixed := noheap_runsConfig noheap site
  have some : session.runs.state.chunks ≠ [] := by
    show session.state.runs.chunks ≠ []
    rw [ok.runChunks]
    exact List.cons_ne_nil _ _
  obtain ⟨chunks, settled, kept⟩ := moves.confined fixed ok.runs ok.deferred some
  have outside : ∀ addr, ¬ (data + size / 2 ≤ addr ∧ addr < data + size) →
      runs.state.mem addr = session.mem addr :=
    fun addr apart => kept addr fun owned => apart (ok.runs_footprint owned)
  refine ⟨?_, outside⟩
  exact
    { pool := by
        obtain ⟨slots, deferred, free, parked, inv⟩ := ok.pool
        refine ⟨slots, deferred, free, parked, inv.framed fun addr owned => ?_⟩
        have lower := ok.pool_footprint owned
        exact outside addr (by omega)
      runs := (Runner.sessionOk_inductive _).step _ _ ok.runs moves
      poolChunks := ok.poolChunks
      runChunks := chunks.trans ok.runChunks
      deferred := settled
      poolWithin := ok.poolWithin
      runWithin := ok.runWithin }

theorem step (noheap : fam.mode = MemoryMode.noheap)
    (moves : SpanSteps fam site session next) :
    SpanOk fam site data size poolChunk runChunk next := by
  cases moves with
  | pool moves => exact (ok.pool_step noheap moves).1
  | runs moves => exact (ok.runs_step noheap moves).1

theorem run (noheap : fam.mode = MemoryMode.noheap)
    (steps : Relation.ReflTransGen (SpanSteps fam site) session next) :
    SpanOk fam site data size poolChunk runChunk next := by
  induction steps with
  | refl => exact ok
  | tail _ moves ih => exact ih.step noheap moves

end SpanOk

section Construction

variable {fam : Family Value Thread Bound} {site : Site Value Thread Bound}
  {mem : Nat → Nat} {data size : Nat} {session : SpanSession}

/-- The construction of a state on one span: a chunk of the pool in the first half
and a chunk of the runner in the second, or a refusal. -/
theorem constructSpan_cases (fam : Family Value Thread Bound)
    (site : Site Value Thread Bound) (mem : Nat → Nat) (data size : Nat) :
    (∃ message,
      constructSpan fam site mem data size = .error (.invalidArgument message) ∧
        ¬ (Pool.alignedData (fam.poolConfig site) data +
            (fam.poolConfig site).nodeBytes ≤ data + size / 2 ∧
          (data + size / 2 + 15) / 16 * 16 + 64 ≤ data + size)) ∨
    ∃ pool runs, Pool.State.constructExternal (fam.poolConfig site) mem data
        (size / 2) = .ok pool ∧
      Runner.State.constructExternal pool.mem (data + size / 2)
        (size - size / 2) = .ok runs ∧
      constructSpan fam site mem data size =
        .ok ⟨runs.mem, ⟨pool.toMembers, runs.toAllocator⟩, [], []⟩ ∧
      Pool.alignedData (fam.poolConfig site) data +
          (fam.poolConfig site).nodeBytes ≤ data + size / 2 ∧
        (data + size / 2 + 15) / 16 * 16 + 64 ≤ data + size := by
  have halves : data + size / 2 + (size - size / 2) = data + size := by omega
  unfold constructSpan constructSpans
  rcases Pool.constructExternal_cases (fam.poolConfig site) mem data (size / 2) with
    ⟨message, failed, tight⟩ | ⟨pool, built, roomy⟩
  · rw [failed]
    exact Or.inl ⟨message, rfl, fun both => tight both.1⟩
  rw [built]
  dsimp only
  rcases Runner.constructExternal_cases pool.mem (data + size / 2)
    (size - size / 2) with ⟨message, failed, tight⟩ | ⟨runs, made, ample⟩
  · rw [failed]
    rw [halves] at tight
    exact Or.inl ⟨message, rfl, fun both => tight both.2⟩
  · rw [made]
    rw [halves] at ample
    exact Or.inr ⟨pool, runs, rfl, made, rfl, roomy, ample⟩

/-- What a construction on the span makes: as many nodes as there is room for from
the first aligned address of the first half on, and the chunk of the runner. -/
structure Constructed (fam : Family Value Thread Bound)
    (site : Site Value Thread Bound) (mem : Nat → Nat) (data size : Nat)
    (session : SpanSession) : Prop where
  pool : ∃ chunk, session.state.pool.chunks = [chunk] ∧
    IsLeast {addr | (fam.poolConfig site).nodeAlignment ∣ addr ∧ data ≤ addr}
      chunk.nodes ∧
    (session.state.pool.nodes (fam.poolConfig site)).length =
      (data + size / 2 - chunk.nodes) / (fam.poolConfig site).nodeBytes
  nodes : ∀ n ∈ session.state.pool.nodes (fam.poolConfig site),
    (fam.poolConfig site).nodeAlignment ∣ n ∧ data ≤ n ∧
      n + (fam.poolConfig site).nodeBytes ≤ data + size / 2
  apart : (session.state.pool.nodes (fam.poolConfig site)).Pairwise fun n m =>
    Disjoint ((fam.poolConfig site).nodeRange n) ((fam.poolConfig site).nodeRange m)
  runs : ∃ chunk, session.state.runs.chunks = [chunk] ∧ 16 ∣ chunk.first ∧
    16 ∣ chunk.bytes ∧ 64 ≤ chunk.bytes ∧ data + size / 2 ≤ chunk.first ∧
      chunk.first + chunk.bytes ≤ data + size
  outside : ∀ addr, ¬ (data ≤ addr ∧ addr + 8 ≤ data + size / 2) →
    ¬ (data + size / 2 ≤ addr ∧ addr + 8 ≤ data + size) →
      session.mem addr = mem addr

/-- What is held lies in the halves of the span, and so does every word that a call
of the pool or of the runner writes. -/
structure SpanConfined (fam : Family Value Thread Bound)
    (site : Site Value Thread Bound) (data size : Nat) (session : SpanSession) :
    Prop where
  nodes : ∀ n ∈ session.nodes,
    data ≤ n ∧ n + (fam.poolConfig site).nodeBytes ≤ data + size / 2
  allocations : ∀ allocation ∈ session.allocations,
    data + size / 2 + 16 ≤ allocation.payload ∧
      session.runs.stop allocation ≤ data + size
  poolWrites : ∀ operation, session.pool.Allows (fam.poolConfig site) operation →
    ∀ addr, ¬ (data ≤ addr ∧ addr + 8 ≤ data + size / 2) →
      (session.pool.perform (fam.poolConfig site) operation).state.mem addr =
        session.mem addr
  runsWrites : ∀ operation, session.runs.Allows operation →
    ∀ addr, ¬ (data + size / 2 ≤ addr ∧ addr + 8 ≤ data + size) →
      (session.runs.perform (fam.runsConfig site) operation).state.mem addr =
        session.mem addr

theorem SpanOk.confined {poolChunk : Pool.Chunk} {runChunk : Runner.ChunkNode}
    (ok : SpanOk fam site data size poolChunk runChunk session)
    (noheap : fam.mode = MemoryMode.noheap) :
    SpanConfined fam site data size session where
  nodes _ held := ok.node_within held
  allocations _ held := ok.allocation_within held
  poolWrites operation allowed addr apart := by
    apply Pool.perform_links (noheap_poolConfig noheap site) allowed
    intro held
    have within := ok.node_within held
    have node := (fam.poolConfig site).nodeBytes_spec.2
    omega
  runsWrites operation allowed addr apart := by
    by_cases owned : addr ∈ session.runs.state.footprint
    · apply ok.runs.perform_ends allowed
      obtain ⟨chunk, member, lower, upper⟩ := owned
      have listed : chunk ∈ session.state.runs.chunks := member
      rw [ok.runChunks] at listed
      obtain rfl := List.mem_singleton.mp listed
      have within := ok.runWithin
      exact ⟨chunk, member, by omega, upper⟩
    · refine ((Runner.Moves.call operation allowed).confined
        (noheap_runsConfig noheap site) ok.runs ok.deferred ?_).2.2 addr owned
      rw [show session.runs.state.chunks = [runChunk] from ok.runChunks]
      exact List.cons_ne_nil _ _

theorem constructed_ok (noheap : fam.mode = MemoryMode.noheap)
    (span : data + size ≤ 2 ^ 64) (nonnull : size ≠ 0 → 0 < data)
    (constructed : constructSpan fam site mem data size = .ok session) :
    Constructed fam site mem data size session ∧ ∃ poolChunk runChunk,
      SpanOk fam site data size poolChunk runChunk session := by
  rcases constructSpan_cases fam site mem data size with ⟨message, failed, _⟩ |
    ⟨pool, runs, poolBuilt, runsBuilt, made, _, roomy⟩
  · rw [failed] at constructed
    cases constructed
  obtain rfl : _ = session := Except.ok.inj (made.symm.trans constructed)
  have positive := nonnull (by omega)
  have raw := noheap_poolConfig noheap site
  obtain ⟨poolChunk, poolChunks, least, count, poolWithin, nodes, apart, links⟩ :=
    Pool.constructExternal_span raw positive (by omega) poolBuilt
  obtain ⟨free, poolOk⟩ := Pool.starts_ok
    (.external mem data (size / 2) raw positive (by omega) poolBuilt rfl)
  obtain ⟨_, _, runChunk, runChunks, runFirst, runBytes, runLarge, runWithin,
    runsKept⟩ := Runner.constructExternal_spec (fam.runsConfig site)
      (show 0 < data + size / 2 by omega) (by omega) runsBuilt
  have runsOk : Runner.SessionOk (fam.runsConfig site) ⟨runs, []⟩ :=
    (Runner.sessionOk_inductive _).start _
      (.external (by omega) (by omega) runsBuilt)
  have lower : data + size / 2 ≤ runChunk.first := by omega
  have upper : runChunk.first + runChunk.bytes ≤ data + size := by omega
  have outside : ∀ addr, ¬ (data + size / 2 ≤ addr ∧ addr + 8 ≤ data + size) →
      runs.mem addr = pool.mem addr := fun addr apart => runsKept addr (by omega)
  have framed : Pool.SessionOk (fam.poolConfig site) pool.capacity false
      ⟨{ pool with mem := runs.mem }, []⟩ free [] := poolOk.framed fun addr owned => by
    obtain ⟨chunk, member, low, high⟩ := owned
    have listed : chunk ∈ pool.chunks := member
    rw [poolChunks] at listed
    obtain rfl := List.mem_singleton.mp listed
    exact outside addr (by omega)
  refine ⟨?_, poolChunk, runChunk, ?_⟩
  · exact
      { pool := ⟨poolChunk, poolChunks, least, count⟩
        nodes := nodes
        apart := apart
        runs := ⟨runChunk, runChunks, by omega, by omega,
          by rw [Runner.minChunkBytes_eq] at runLarge; exact runLarge, lower, upper⟩
        outside := fun addr first second =>
          (outside addr second).trans (links addr first) }
  · exact
      { pool := ⟨_, false, free, [], framed⟩
        runs := runsOk
        poolChunks := poolChunks
        runChunks := runChunks
        deferred := Runner.constructExternal_deferred runsBuilt
        poolWithin := poolWithin
        runWithin := ⟨lower, upper⟩ }

/-- The constructor of the world makes what the span alone determines. -/
theorem constructBacked_eq [DecidableEq Value] [DecidableEq Thread] [DecidableEq Bound]
    (w : World Value Thread Bound) (nodeData nodeSize runData runSize : Nat) :
    w.constructBacked fam site nodeData nodeSize runData runSize =
      match constructSpans fam site w.mem nodeData nodeSize runData runSize with
      | .error exn => (w, .error exn)
      | .ok session =>
          ({ w with
            mem := session.mem
            states := Function.update w.states site session.state
            created := Function.update w.created site true }, .ok ()) := by
  unfold World.constructBacked constructSpans
  cases Pool.State.constructExternal (fam.poolConfig site) w.mem nodeData nodeSize with
  | error exn => rfl
  | ok pool =>
      dsimp only
      cases Runner.State.constructExternal pool.mem runData runSize <;> rfl

end Construction

/-- For every span, the construction of a `noheap` state on it fails, with
`invalid_argument`, exactly when the first half cannot hold an aligned node or the
second half cannot hold an aligned chunk of 64 bytes.  Else the pool and the runner
lie in the halves, and all they hand out and all they ever write does, too. -/
theorem noheapSpan_confined (noheap : fam.mode = MemoryMode.noheap)
    (site : Site Value Thread Bound) (mem : Nat → Nat) (data size : Nat)
    (span : data + size ≤ 2 ^ 64) (nonnull : size ≠ 0 → 0 < data) :
    (∀ exn, constructSpan fam site mem data size = .error exn →
      ∃ message, exn = .invalidArgument message) ∧
    ((∃ exn, constructSpan fam site mem data size = .error exn) ↔
      ¬ ((∃ addr, (fam.poolConfig site).nodeAlignment ∣ addr ∧ data ≤ addr ∧
          addr + (fam.poolConfig site).nodeBytes ≤ data + size / 2) ∧
        ∃ addr, 16 ∣ addr ∧ data + size / 2 ≤ addr ∧ addr + 64 ≤ data + size)) ∧
    ∀ session, constructSpan fam site mem data size = .ok session →
      Constructed fam site mem data size session ∧
        ∀ later, Relation.ReflTransGen (SpanSteps fam site) session later →
          SpanConfined fam site data size later := by
  refine ⟨?_, ?_, ?_⟩
  · intro exn failed
    rcases constructSpan_cases fam site mem data size with ⟨message, thrown, _⟩ |
      ⟨_, _, _, _, made, _⟩
    · rw [thrown] at failed
      exact ⟨message, (Except.error.inj failed).symm⟩
    · rw [made] at failed
      cases failed
  · rw [← Pool.alignedData_fits, ← Runner.alignedRun_fits]
    rcases constructSpan_cases fam site mem data size with ⟨message, thrown, tight⟩ |
      ⟨_, _, _, _, made, roomy⟩
    · exact iff_of_true ⟨_, thrown⟩ tight
    · refine iff_of_false ?_ (not_not.mpr roomy)
      rintro ⟨exn, thrown⟩
      rw [made] at thrown
      cases thrown
  · intro session constructed
    obtain ⟨made, _, _, ok⟩ := constructed_ok noheap span nonnull constructed
    exact ⟨made, fun later steps => (ok.run noheap steps).confined noheap⟩

def spanFamily : Family Bool Bool Unit :=
  sampleFamily .noheap 12 samplePage 1 sampleSize

/-- The second half of the shorter span has no aligned 64 bytes. -/
theorem spanFamily_confined :
    (∃ exn, constructSpan spanFamily (.bound ()) (fun _ => 0) 65544 128 = .error exn) ∧
      ∃ session, constructSpan spanFamily (.bound ()) (fun _ => 0) 65544 201 =
          .ok session ∧
        Constructed spanFamily (.bound ()) (fun _ => 0) 65544 201 session ∧
        ∀ later, Relation.ReflTransGen (SpanSteps spanFamily (.bound ())) session later →
          SpanConfined spanFamily (.bound ()) 65544 201 later := by
  have noheap : spanFamily.mode = MemoryMode.noheap := rfl
  obtain ⟨_, refused, _⟩ := noheapSpan_confined noheap (.bound ()) (fun _ => 0) 65544 128
    (by decide) (by decide)
  obtain ⟨_, served, confined⟩ := noheapSpan_confined noheap (.bound ()) (fun _ => 0)
    65544 201 (by decide) (by decide)
  refine ⟨refused.mpr ?_, ?_⟩
  · rintro ⟨_, addr, aligned, after, fits⟩
    omega
  · cases constructed : constructSpan spanFamily (.bound ()) (fun _ => 0) 65544 201 with
    | error exn =>
        refine absurd ⟨⟨65544, ?_⟩, 65648, by decide⟩ (served.mp ⟨exn, constructed⟩)
        exact ⟨by decide, by decide, by decide⟩
    | ok session => exact ⟨session, rfl, confined session constructed⟩

end Suballocated

end Allocazam
