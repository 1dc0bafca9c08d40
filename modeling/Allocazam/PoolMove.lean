import Allocazam.PoolSafety

/-!
# Moving a pool

The move operations of a pool are defaulted: chunks exchange their memory for
nothing, while counters and the head of the free list are copied.  A moved-from
pool that had nodes therefore still counts them and hands out its former free
list; one that had none is as good as new.
-/

namespace Allocazam

namespace Pool

namespace Members

/-- The members of a move-constructed pool, and those left in the source. -/
def moveConstruct (cfg : Config) (source : Members) : Members × Members :=
  (source,
    { source with
      chunks := if cfg.mode = MemoryMode.dynamic then []
        else source.chunks.map fun _ => Chunk.empty cfg })

/-- The members after a move assignment to a pool, whose own chunks are
released, and those left in the source. -/
def moveAssign (cfg : Config) (_target source : Members) : Members × Members :=
  source.moveConstruct cfg

end Members

inductive Side where
  | destination
  | source
  deriving DecidableEq, Repr

/-- Two pools in one memory, and the nodes each has handed out. -/
structure Pair where
  mem : Nat → Nat
  members : Side → Members
  live : Side → List Nat

namespace Pair

variable (pair : Pair)

def session (side : Side) : Session :=
  ⟨⟨pair.members side, pair.mem⟩, pair.live side⟩

/-- The pair after a call that left one of its pools in `session`. -/
def put (side : Side) (session : Session) : Pair where
  mem := session.state.mem
  members := Function.update pair.members side session.state.toMembers
  live := Function.update pair.live side session.live

end Pair

/-- A call on one of the pools, or a holder writing to a node. -/
inductive PairSteps (cfg : Config) : Pair → Pair → Prop
  | allocate {pair : Pair} (side : Side) (heap : Heap)
      (inUse : ∀ other, ∀ addr ∈ (pair.members other).footprint cfg,
        heap.inUse addr) :
      PairSteps cfg pair
        (pair.put side ((pair.session side).perform cfg (.allocate heap)))
  | deallocate {pair : Pair} (side : Side) {n : Nat}
      (holds : n ∈ pair.live side) :
      PairSteps cfg pair
        (pair.put side ((pair.session side).perform cfg (.deallocate n)))
  | store {pair : Pair} (side : Side) {n addr : Nat} (value : Nat)
      (holds : n ∈ pair.live side) (inNode : addr ∈ cfg.nodeRange n) :
      PairSteps cfg pair { pair with mem := Function.update pair.mem addr value }

/-- What users can do with the two pools of a move of `former`. -/
def afterMove (cfg : Config) (former : Session) (moved : Members × Members) :
    TransitionSystem Pair where
  start pair := pair =
    { mem := former.state.mem
      members := fun
        | .destination => moved.1
        | .source => moved.2
      live := fun
        | .destination => former.live
        | .source => [] }
  step := PairSteps cfg

/-- A move that hands over everything: the destination has the former chunks,
free list and counters, the source counts nothing, and later no node is in use
from both, nor does the source count nodes it did not hand out itself. -/
structure Transfers (cfg : Config) (former : Session)
    (moved : Members × Members) : Prop where
  chunks : moved.1.chunks = former.state.chunks
  freeHead : moved.1.freeHead = former.state.freeHead
  counters : moved.1.size = former.state.size ∧
    moved.1.capacity = former.state.capacity
  size : moved.2.size = 0
  capacity : moved.2.capacity = 0
  later : ∀ pair, (afterMove cfg former moved).Reachable pair →
    (∀ n ∈ pair.live .destination, n ∉ pair.live .source) ∧
      (pair.members .source).size = (pair.live .source).length

/-- Both pools are consistent and share no address. -/
structure PairOk (cfg : Config) (pair : Pair) : Prop where
  balanced : ∀ side, ∃ free,
    Balanced cfg (pair.session side).state 0 free [] [] (pair.live side)
  apart : Disjoint ((pair.members .destination).footprint cfg)
    ((pair.members .source).footprint cfg)

namespace PairOk

variable {cfg : Config} {pair : Pair}

theorem disjoint (inv : PairOk cfg pair) {side other : Side}
    (distinct : side ≠ other) :
    Disjoint ((pair.members side).footprint cfg)
      ((pair.members other).footprint cfg) := by
  cases side <;> cases other
  · exact absurd rfl distinct
  · exact inv.apart
  · exact inv.apart.symm
  · exact absurd rfl distinct

/-- A call on one pool that writes to its own addresses only. -/
theorem put (inv : PairOk cfg pair) {side : Side} {session : Session}
    {free : List Nat}
    (balanced : Balanced cfg session.state 0 free [] [] session.live)
    (apart : ∀ other ≠ side, Disjoint (session.state.footprint cfg)
      ((pair.members other).footprint cfg))
    (kept : ∀ addr ∉ session.state.footprint cfg,
      session.state.mem addr = pair.mem addr) :
    PairOk cfg (pair.put side session) := by
  have members : ∀ other ≠ side,
      (pair.put side session).members other = pair.members other :=
    fun other distinct => Function.update_of_ne distinct _ _
  have own : (pair.put side session).members side = session.state.toMembers :=
    Function.update_self _ _ _
  refine ⟨fun other => ?_, ?_⟩
  · by_cases same : other = side
    · subst same
      refine ⟨free, ?_⟩
      unfold Pair.session
      rw [own]
      have live : (pair.put other session).live other = session.live :=
        Function.update_self _ _ _
      rw [live]
      exact balanced
    · obtain ⟨free', balanced'⟩ := inv.balanced other
      refine ⟨free', ?_⟩
      have live : (pair.put side session).live other = pair.live other :=
        Function.update_of_ne same _ _
      unfold Pair.session
      rw [members other same, live]
      apply balanced'.frame
      intro addr inOther
      apply kept
      exact Set.disjoint_right.mp (apart other same) inOther
  · cases side with
    | destination =>
        rw [own, members .source (by decide)]
        exact apart .source (by decide)
    | source =>
        rw [own, members .destination (by decide)]
        exact (apart .destination (by decide)).symm

theorem allocate (inv : PairOk cfg pair) (side : Side) {heap : Heap}
    (inUse : ∀ other, ∀ addr ∈ (pair.members other).footprint cfg,
      heap.inUse addr) :
    PairOk cfg
      (pair.put side ((pair.session side).perform cfg (.allocate heap))) := by
  obtain ⟨free, balanced⟩ := inv.balanced side
  obtain ⟨u, free', parked', result, balanced', chunks, _, _, memEq, subset, _⟩ :=
    Balanced.allocate heap balanced fun _ => rfl
  obtain rfl : parked' = [] :=
    List.eq_nil_iff_forall_not_mem.mpr fun m listed => by
      simpa using subset m listed
  have footprint : u.footprint cfg = (pair.members side).footprint cfg := by
    unfold Members.footprint
    rw [chunks]
    rfl
  have inUse' : ∀ addr ∈ u.footprint cfg, heap.inUse addr := by
    rw [footprint]
    exact inUse side
  obtain ⟨⟨free'', provided⟩, kept, _, fresh⟩ :=
    (provide_spec balanced'.toOk inUse' balanced'.growing).balanced balanced'
      inUse'
  rw [Session.perform_allocate, result]
  apply inv.put provided
  · intro other distinct
    apply Set.disjoint_left.mpr
    intro addr inNew inOther
    rcases fresh addr inNew with old | unused
    · rw [footprint] at old
      exact Set.disjoint_left.mp (inv.disjoint distinct.symm) old inOther
    · exact unused (inUse other addr inOther)
  · intro addr outside
    rw [kept addr (Or.inl outside), memEq addr (by simp)]
    rfl

theorem deallocate (inv : PairOk cfg pair) {side : Side} {n : Nat}
    (holds : n ∈ pair.live side) :
    PairOk cfg
      (pair.put side ((pair.session side).perform cfg (.deallocate n))) := by
  obtain ⟨free, balanced⟩ := inv.balanced side
  have node := balanced.mem_nodes_iff.mpr (Or.inr (Or.inr (Or.inr holds)))
  have inFootprint := balanced.laid.nodeRange_subset node
    (cfg.self_mem_nodeRange n)
  rw [Session.perform_deallocate (balanced.nonnull node)]
  apply inv.put (balanced.reorder (List.perm_cons_erase holds)).freed
  · exact fun other distinct => inv.disjoint distinct.symm
  · intro addr outside
    apply Function.update_of_ne
    rintro rfl
    exact outside inFootprint

theorem store (inv : PairOk cfg pair) {side : Side} {n addr : Nat} (value : Nat)
    (holds : n ∈ pair.live side) (inNode : addr ∈ cfg.nodeRange n) :
    PairOk cfg { pair with mem := Function.update pair.mem addr value } := by
  refine ⟨fun other => ?_, inv.apart⟩
  obtain ⟨free, balanced⟩ := inv.balanced side
  obtain ⟨free', balanced'⟩ := inv.balanced other
  refine ⟨free', ?_⟩
  by_cases same : other = side
  · subst same
    exact balanced'.store holds inNode value
  · apply balanced'.frame
    intro word inOther
    apply Function.update_of_ne
    rintro rfl
    have node := balanced.mem_nodes_iff.mpr (Or.inr (Or.inr (Or.inr holds)))
    exact Set.disjoint_left.mp (inv.disjoint same) inOther
      (balanced.laid.nodeRange_subset node inNode)

end PairOk

variable {cfg : Config} {slots : Nat} {deferred : Bool} {former : Session}

theorem afterMove_inductive {moved : Members × Members}
    (begins : ∀ pair, (afterMove cfg former moved).start pair → PairOk cfg pair) :
    (afterMove cfg former moved).Inductive (PairOk cfg) where
  start := begins
  step pair pair' inv step := by
    cases step with
    | allocate side heap inUse => exact inv.allocate side inUse
    | deallocate side holds => exact inv.deallocate holds
    | store side value holds inNode => exact inv.store value holds inNode

theorem moveConstruct_transfers_iff (raw : cfg.ownerHeaders = false)
    (reachable : (sessions cfg slots deferred).Reachable former) :
    Transfers cfg former (former.state.moveConstruct cfg) ↔
      former.state.capacity = 0 := by
  obtain ⟨free, parked, inv⟩ := sessions_inductive.reachable reachable
  obtain rfl := inv.raw raw
  constructor
  · intro transfers
    exact transfers.capacity
  · intro none
    have total := inv.balanced.capacity_eq
    have counted := inv.balanced.size_eq
    simp only [List.length_nil, Nat.add_zero] at total counted
    have noLive : former.live = [] :=
      List.eq_nil_of_length_eq_zero (by omega)
    have noFree : free = [] := List.eq_nil_of_length_eq_zero (by omega)
    have vacant : Vacant cfg (former.state.moveConstruct cfg).2 :=
      { chunks := by
          unfold Members.moveConstruct
          dsimp only
          split <;> simp
        size := by
          show former.state.size = 0
          omega
        capacity := none
        freeHead := inv.balanced.stack.eq_nil_iff.mp noFree
        remoteHead := inv.balanced.remote }
    have begins : ∀ pair,
        (afterMove cfg former (former.state.moveConstruct cfg)).start pair →
          PairOk cfg pair := by
      rintro pair rfl
      refine ⟨fun side => ?_, ?_⟩
      · cases side with
        | destination => exact ⟨free, inv.balanced⟩
        | source => exact ⟨[], vacant.balanced _ inv.balanced.growing⟩
      · show Disjoint _ (Members.footprint cfg _)
        rw [vacant.footprint]
        exact Set.disjoint_empty _
    exact
      { chunks := rfl
        freeHead := rfl
        counters := ⟨rfl, rfl⟩
        size := by
          show former.state.size = 0
          omega
        capacity := none
        later := fun pair pairReachable => by
          have ok := (afterMove_inductive begins).reachable pairReachable
          obtain ⟨free₁, balanced₁⟩ := ok.balanced .destination
          obtain ⟨free₂, balanced₂⟩ := ok.balanced .source
          refine ⟨fun n inDestination inSource => ?_, ?_⟩
          · exact Set.disjoint_left.mp ok.apart
              (balanced₁.laid.nodeRange_subset (balanced₁.mem_nodes_iff.mpr
                (Or.inr (Or.inr (Or.inr inDestination))))
                (cfg.self_mem_nodeRange n))
              (balanced₂.laid.nodeRange_subset (balanced₂.mem_nodes_iff.mpr
                (Or.inr (Or.inr (Or.inr inSource))))
                (cfg.self_mem_nodeRange n))
          · have sizeEq := balanced₂.size_eq
            show (pair.session .source).state.size = _
            simpa using sizeEq }

/-- A move, by construction or by assignment to a pool without live nodes,
transfers a pool completely exactly when the pool has no nodes. -/
theorem move_transfers_iff (raw : cfg.ownerHeaders = false)
    (reachable : (sessions cfg slots deferred).Reachable former) :
    (Transfers cfg former (former.state.moveConstruct cfg) ↔
      former.state.capacity = 0) ∧
    ∀ target : Members, target.size = 0 →
      (Transfers cfg former
          (Members.moveAssign cfg target former.state.toMembers) ↔
        former.state.capacity = 0) :=
  ⟨moveConstruct_transfers_iff raw reachable,
    fun _ _ => moveConstruct_transfers_iff raw reachable⟩

/-- After the move both pools hand out the same node. -/
theorem samplePool_moved :
    let cfg := samplePool .fixed
    let former : Session := ⟨sampleState .fixed, []⟩
    let moved := former.state.moveConstruct cfg
    (sessions cfg 1 false).Reachable former ∧ moved.2.capacity = 1 ∧
      (State.allocate cfg ⟨moved.1, former.state.mem⟩ exhausted).2 =
        .ok 65536 ∧
      (State.allocate cfg ⟨moved.2, former.state.mem⟩ exhausted).2 =
        .ok 65536 :=
  ⟨.start (.eager onePage (fun _ => 0) rfl (by decide) rfl), rfl, rfl, rfl⟩

theorem samplePool_not_transferred :
    ¬ Transfers (samplePool .fixed) ⟨sampleState .fixed, []⟩
      ((sampleState .fixed).moveConstruct (samplePool .fixed)) := by
  intro transfers
  have begins : (sessions (samplePool .fixed) 1 false).Reachable
      ⟨sampleState .fixed, []⟩ :=
    .start (.eager onePage (fun _ => 0) rfl (by decide) rfl)
  have raw : (samplePool .fixed).ownerHeaders = false := rfl
  have none := (move_transfers_iff raw begins).1.mp transfers
  exact absurd none (by decide +kernel)

end Pool

end Allocazam
