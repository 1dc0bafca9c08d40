import Allocazam.PoolGranules
import Allocazam.PoolSafety
import Allocazam.PushedChain

/-!
# What the debug build of a pool checks

The assertions on nodes that come back to a pool.  `none` is a failed assertion.
-/

namespace Allocazam

namespace Pool

/-- The loop of `_is_in_free_list` from `n` on, for at most `fuel` nodes. -/
def searchFree (mem : Nat → Nat) (target : Nat) : Nat → Nat → Bool
  | 0, _ => false
  | fuel + 1, n =>
      if n = 0 then false
      else if n = target then true
      else searchFree mem target fuel (mem n)

namespace State

variable (cfg : Config) (s : State)

def isInFreeList (ptr : Nat) : Bool :=
  searchFree s.mem ptr s.capacity s.freeHead

def accepts (ptr : Nat) : Bool :=
  s.owns cfg ptr && !s.isInFreeList ptr

/-- `deallocate`, with its assertions. -/
def deallocateChecked (ptr : Nat) : Option State :=
  if ptr = 0 then some s
  else if s.accepts cfg ptr then some (s.deallocate ptr)
  else none

/-- The loop of `_drain_remote` from `n` on, with its assertions, for at most `fuel`
nodes. -/
def spliceChecked : Nat → Nat → State → Option State
  | 0, _, s => some s
  | fuel + 1, n, s =>
      if n = 0 then some s
      else
        let next := s.mem n
        if s.accepts cfg n then spliceChecked fuel next (s.spliceNode n) else none

/-- `_drain_remote`, with its assertions. -/
def drainChecked : Option (State × Bool) :=
  let n := s.remoteHead
  let s := { s with remoteHead := 0 }
  if n = 0 then some (s, false)
  else (spliceChecked cfg (s.capacity + 1) n s).map fun s => (s, true)

/-- `_add_chunk`, with its assertion and the one of the chunk's constructor. -/
def addChunkChecked (heap : Heap) (slots : Nat) : Option (State × Except Exn Unit) :=
  if cfg.mode = MemoryMode.fixed ∧ s.capacity ≠ 0 then none
  else if cfg.ownerHeaders ∧ cfg.nodesPerGranule cfg.granule < 1 then none
  else some (s.addChunk cfg heap slots)

/-- `_grow`, with the assertions of its chunk. -/
def growChecked (heap : Heap) : Option (State × Except Exn Unit) :=
  match checkedMul s.nextGrowth 2 with
  | none => some (s, .error .badAlloc)
  | some doubledGrowth =>
      let s := { s with nextGrowth := max 1 doubledGrowth }
      s.addChunkChecked cfg heap s.nextGrowth

def allocateDeferredChecked (heap : Heap) : Option (State × Except Exn Nat) :=
  if cfg.heapBacked ∧ s.capacity = 0 ∧ s.nextGrowth ≠ 0 then
    match s.addChunkChecked cfg heap s.nextGrowth with
    | none => none
    | some (s, .error exn) => some (s, .error exn)
    | some (s, .ok ()) =>
        let (s, n) := s.popFreeNode
        some (s, .ok n)
  else some (s, .ok 0)

/-- `allocate` from there on, with the assertions of the growth. -/
def allocateGrownChecked (heap : Heap) : Option (State × Except Exn Nat) :=
  if cfg.fixedLike then some (s, .ok 0)
  else
    match s.growChecked cfg heap with
    | none => none
    | some (s, .error exn) => some (s, .error exn)
    | some (s, .ok ()) =>
        let (s, n) := s.popFreeNode
        if n = 0 then some (s, .error .badAlloc) else some (s.handOut n)

/-- `allocate` from the point where the remote stack has been dealt with, with its
assertions. -/
def resumeAllocateChecked (heap : Heap) (n : Nat) : Option (State × Except Exn Nat) :=
  if n = 0 then
    match s.allocateDeferredChecked cfg heap with
    | none => none
    | some (s, .error exn) => some (s, .error exn)
    | some (s, .ok n) =>
        if n = 0 then s.allocateGrownChecked cfg heap else some (s.handOut n)
  else some (s.handOut n)

/-- `allocate`, with the assertions of its drain and of its chunks. -/
def allocateChecked (heap : Heap) : Option (State × Except Exn Nat) :=
  let (s, n) := s.popFreeNode
  if n = 0 ∧ cfg.ownerHeaders then
    match s.drainChecked cfg with
    | none => none
    | some (s, true) =>
        let (s, n) := s.popFreeNode
        s.resumeAllocateChecked cfg heap n
    | some (s, false) => s.resumeAllocateChecked cfg heap 0
  else s.resumeAllocateChecked cfg heap n

/-- `~allocazam`, with its assertions, before the chunks are destroyed. -/
def destroyChecked : Option State :=
  match if cfg.ownerHeaders then s.drainChecked cfg else some (s, false) with
  | none => none
  | some (s, _) => if s.size = 0 then some s else none

end State

variable {cfg : Config} {s : State} {session : Session} {heap : Heap} {n ptr fuel : Nat}
  {free parked pushes : List Nat}

theorem addChunkChecked_eq {slots : Nat} (first : cfg.mode = MemoryMode.fixed → s.capacity = 0) :
    s.addChunkChecked cfg heap slots = some (s.addChunk cfg heap slots) := by
  unfold State.addChunkChecked
  rw [if_neg fun both => both.2 (first both.1),
    if_neg fun both => absurd cfg.nodesPerGranule_spec.1 (by omega)]

theorem allocateDeferredChecked_eq :
    s.allocateDeferredChecked cfg heap = some (s.allocateDeferred cfg heap) := by
  unfold State.allocateDeferredChecked State.allocateDeferred
  by_cases due : cfg.heapBacked = true ∧ s.capacity = 0 ∧ s.nextGrowth ≠ 0
  · rw [if_pos due, if_pos due, addChunkChecked_eq fun _ => due.2.1]
    generalize s.addChunk cfg heap s.nextGrowth = outcome
    obtain ⟨t, exn | done⟩ := outcome <;> rfl
  · rw [if_neg due, if_neg due]

theorem allocateGrownChecked_eq :
    s.allocateGrownChecked cfg heap = some (s.allocateGrown cfg heap) := by
  unfold State.allocateGrownChecked State.allocateGrown
  by_cases fixedLike : cfg.fixedLike = true
  · rw [if_pos fixedLike, if_pos fixedLike]
  · have dynamic : cfg.mode ≠ MemoryMode.fixed := by
      intro fixed
      exact fixedLike (by unfold Config.fixedLike; rw [fixed]; rfl)
    have grown : s.growChecked cfg heap = some (s.grow cfg heap) := by
      unfold State.growChecked State.grow
      cases checkedMul s.nextGrowth 2 with
      | none => rfl
      | some doubled => exact addChunkChecked_eq fun fixed => absurd fixed dynamic
    rw [if_neg fixedLike, if_neg fixedLike, grown]
    generalize s.grow cfg heap = outcome
    obtain ⟨t, exn | done⟩ := outcome
    · rfl
    · dsimp only
      split <;> rfl

theorem resumeAllocateChecked_eq :
    s.resumeAllocateChecked cfg heap n = some (s.resumeAllocate cfg heap n) := by
  unfold State.resumeAllocateChecked State.resumeAllocate
  by_cases null : n = 0
  · rw [if_pos null, if_pos null, allocateDeferredChecked_eq]
    generalize s.allocateDeferred cfg heap = outcome
    obtain ⟨t, exn | first⟩ := outcome
    · rfl
    · dsimp only
      rw [allocateGrownChecked_eq]
      split <;> rfl
  · rw [if_neg null, if_neg null]

theorem searchFree_iff {mem : Nat → Nat} (stack : IsStack mem n free)
    (enough : free.length ≤ fuel) : searchFree mem ptr fuel n = true ↔ ptr ∈ free := by
  induction free generalizing n fuel with
  | nil =>
      obtain rfl : n = 0 := stack
      cases fuel with
      | zero => simp [searchFree]
      | succ fuel => simp [searchFree]
  | cons first later ih =>
      obtain ⟨rfl, nonnull, rest⟩ := stack
      obtain ⟨fuel, rfl⟩ : ∃ left, fuel = left + 1 :=
        ⟨fuel - 1, by simp only [List.length_cons] at enough; omega⟩
      unfold searchFree
      rw [if_neg nonnull, List.mem_cons]
      by_cases same : n = ptr
      · simp [same]
      · rw [if_neg same, ih rest (by simpa using enough)]
        simp [Ne.symm same]

namespace Ok

variable (ok : Ok cfg s free)

include ok

theorem isInFreeList_iff : s.isInFreeList ptr = true ↔ ptr ∈ free :=
  searchFree_iff ok.stack (by have := ok.size; omega)

theorem accepts_iff : s.accepts cfg ptr = true ↔ s.owns cfg ptr = true ∧ ptr ∉ free := by
  unfold State.accepts
  rw [Bool.and_eq_true, Bool.not_eq_true', ← Bool.not_eq_true, ok.isInFreeList_iff]

theorem accepts_node (node : ptr ∈ s.nodes cfg) : s.accepts cfg ptr = true ↔ ptr ∉ free := by
  rw [ok.accepts_iff]
  exact and_iff_right (ok.laid.owns_of_node node)

theorem node_of_owns (headers : cfg.ownerHeaders = true) (owned : s.owns cfg ptr = true) :
    ptr ∈ s.nodes cfg := by
  obtain ⟨chunk, member, contained⟩ := List.any_eq_true.mp owned
  rcases ok.laid.placed chunk member with rfl | placed
  · rw [Chunk.contains_empty] at contained
    cases contained
  · obtain ⟨i, inside, rfl⟩ := (Chunk.contains_iff placed headers).mp contained
    exact mem_nodes.mpr ⟨chunk, member, Chunk.mem_list.mpr ⟨i, inside, rfl⟩⟩

end Ok

theorem spliceChecked_spec (ok : Ok cfg s free)
    (chained : Chained s.mem free pushes) (nodes : ∀ m ∈ pushes, m ∈ s.nodes cfg)
    (enough : s.capacity < fuel + free.length) :
    (pushes.Nodup → (∀ m ∈ pushes, m ∉ free) → ∀ fuel', pushes.length ≤ fuel' →
        s.spliceChecked cfg fuel (pushes.head?.getD 0) =
          some (State.spliceWalk fuel' (pushes.head?.getD 0) s)) ∧
      (¬ (pushes.Nodup ∧ ∀ m ∈ pushes, m ∉ free) →
        s.spliceChecked cfg fuel (pushes.head?.getD 0) = none) := by
  induction pushes generalizing s free fuel with
  | nil =>
      refine ⟨fun _ _ fuel' _ => ?_, fun failed => absurd ⟨List.nodup_nil, by simp⟩ failed⟩
      have walked : State.spliceWalk fuel' 0 s = s := by
        cases fuel' <;> simp [State.spliceWalk]
      show s.spliceChecked cfg fuel 0 = some (State.spliceWalk fuel' 0 s)
      rw [walked]
      cases fuel <;> simp [State.spliceChecked]
  | cons n later ih =>
      have node := nodes n (by simp)
      have nonnull := ok.nonnull node
      have counted := ok.size
      obtain ⟨fuel, rfl⟩ : ∃ left, fuel = left + 1 := ⟨fuel - 1, by omega⟩
      show (_ → _ → ∀ fuel', _ → s.spliceChecked cfg (fuel + 1) n =
          some (State.spliceWalk fuel' n s)) ∧
        (_ → s.spliceChecked cfg (fuel + 1) n = none)
      unfold State.spliceChecked
      rw [if_neg nonnull]
      dsimp only
      by_cases isFree : n ∈ free
      · -- the node has come up before
        rw [if_neg (by rw [ok.accepts_node node]; exact not_not.mpr isFree)]
        exact ⟨fun _ fresh => absurd isFree (fresh n (by simp)), fun _ => rfl⟩
      · rw [if_pos ((ok.accepts_node node).mpr isFree), chained.first isFree]
        have given := ok.give node isFree
        have chainedLater : Chained (s.spliceNode n).mem (n :: free) later := by
          rw [State.spliceNode_eq]
          exact chained.tail s.freeHead
        have nodesLater : ∀ m ∈ later, m ∈ (s.spliceNode n).nodes cfg := fun m listed => by
          rw [State.spliceNode_nodes]
          exact nodes m (List.mem_cons_of_mem _ listed)
        have capacity : (s.spliceNode n).capacity = s.capacity := by
          rw [State.spliceNode_eq]
        have enoughLater : (s.spliceNode n).capacity < fuel + (n :: free).length := by
          rw [capacity, List.length_cons]
          omega
        obtain ⟨passes, fails⟩ := ih given chainedLater nodesLater enoughLater
        constructor
        · intro nodup fresh fuel' short
          obtain ⟨notLater, nodupLater⟩ := List.nodup_cons.mp nodup
          have freshLater : ∀ m ∈ later, m ∉ n :: free := by
            intro m listed member
            rcases List.mem_cons.mp member with rfl | isFree
            · exact notLater listed
            · exact fresh m (List.mem_cons_of_mem _ listed) isFree
          rw [List.length_cons] at short
          obtain ⟨left, rfl⟩ : ∃ left, fuel' = left + 1 := ⟨fuel' - 1, by omega⟩
          rw [passes nodupLater freshLater left (by omega)]
          have step : State.spliceWalk (left + 1) n s =
              State.spliceWalk left (s.mem n) (s.spliceNode n) := by
            rw [State.spliceWalk, if_neg nonnull]
          rw [step, chained.first isFree]
        · intro failed
          refine fails fun both => failed ⟨?_, ?_⟩
          · refine List.nodup_cons.mpr ⟨fun listed => ?_, both.1⟩
            exact both.2 n listed (by simp)
          · intro m listed
            rcases List.mem_cons.mp listed with rfl | inLater
            · exact isFree
            · exact fun isFree => both.2 m inLater (List.mem_cons_of_mem _ isFree)

/-- The pool after nodes outside its free list were pushed, the latest first. -/
structure Queued (cfg : Config) (s : State) (free pushes : List Nat) : Prop where
  ok : Ok cfg s free
  chained : Chained s.mem free pushes
  head : s.remoteHead = pushes.head?.getD 0
  nodes : ∀ n ∈ pushes, n ∈ s.nodes cfg ∧ n ∉ free

namespace Queued

theorem push (queued : Queued cfg s free parked) (node : n ∈ s.nodes cfg) (taken : n ∉ free) :
    Queued cfg (s.remotePush n) free (n :: parked) where
  ok := (queued.ok.store node taken (cfg.self_mem_nodeRange n) s.remoteHead).withMembers
    s.nextGrowth n
  chained := by
    show Chained (Function.update s.mem n s.remoteHead) free (n :: parked)
    rw [queued.head]
    exact queued.chained.push n
  head := rfl
  nodes := List.forall_mem_cons.mpr ⟨⟨node, taken⟩, queued.nodes⟩

theorem pushAll (queued : Queued cfg s free parked)
    (nodes : ∀ n ∈ pushes, n ∈ s.nodes cfg ∧ n ∉ free) :
    Queued cfg (pushes.foldl State.remotePush s) free (pushes.reverse ++ parked) := by
  induction pushes generalizing s parked with
  | nil => exact queued
  | cons n later ih =>
      obtain ⟨node, taken⟩ := nodes n (by simp)
      have pushed := ih (queued.push node taken) fun m listed =>
        nodes m (List.mem_cons_of_mem _ listed)
      rw [List.foldl_cons, List.reverse_cons, List.append_assoc]
      exact pushed

variable (queued : Queued cfg s free pushes)

include queued

theorem drainChecked : (pushes.Nodup → s.drainChecked cfg = some s.drainRemote) ∧
    (¬ pushes.Nodup → s.drainChecked cfg = none) := by
  have fresh : ∀ n ∈ pushes, n ∉ free := fun n listed => (queued.nodes n listed).2
  have counted := queued.ok.size
  obtain ⟨passes, fails⟩ := spliceChecked_spec (queued.ok.withMembers s.nextGrowth 0)
    queued.chained (fun n listed => (queued.nodes n listed).1)
    (show s.capacity < s.capacity + 1 + free.length by omega)
  unfold State.drainChecked State.drainRemote
  dsimp only
  rw [queued.head]
  by_cases none : pushes = []
  · rw [none]
    exact ⟨fun _ => rfl, fun failed => absurd List.nodup_nil failed⟩
  · have nonnull : pushes.head?.getD 0 ≠ 0 := by
      obtain ⟨n, later, rfl⟩ := List.exists_cons_of_ne_nil none
      exact queued.ok.nonnull (queued.nodes n (by simp)).1
    rw [if_neg nonnull, if_neg nonnull]
    constructor
    · intro nodup
      have short : pushes.length ≤ s.capacity := by
        rw [queued.ok.capacity]
        exact (List.subperm_of_subset nodup fun n listed =>
          (queued.nodes n listed).1).length_le
      rw [passes nodup fresh s.capacity short]
      rfl
    · intro repeated
      rw [fails fun both => repeated both.1]
      rfl

end Queued

theorem Balanced.queued {out : List Nat} (inv : Balanced cfg s 0 free parked [] out) :
    Queued cfg s free parked where
  ok := inv.toOk
  chained := inv.remote.chained
  head := inv.remote.head_eq
  nodes n listed := by
    refine ⟨inv.mem_nodes_iff.mpr (by simp [listed]), fun isFree => ?_⟩
    have apart := (List.nodup_append.mp (List.nodup_append.mp
      (List.nodup_append.mp inv.nodup).1).1).2.2
    exact apart n isFree n listed rfl

theorem Balanced.parked_nodup {out : List Nat} (inv : Balanced cfg s 0 free parked [] out) :
    parked.Nodup :=
  inv.remote.nodup

/-- What the assertions of a pool let pass: all that its users may do, and of what they may
not do only frees of parked nodes and, without owner headers, of what is no node. -/
structure Vigilant (cfg : Config) (session : Session) (parked : List Nat) : Prop where
  deallocate : ∀ n ∈ session.live,
    session.state.deallocateChecked cfg n = some (session.state.deallocate n)
  allocate : ∀ heap,
    session.state.allocateChecked cfg heap = some (session.state.allocate cfg heap)
  nodes : ∀ n ∈ session.state.nodes cfg,
    session.state.deallocateChecked cfg n ≠ none ↔ n ∈ session.live ∨ n ∈ parked
  pointers : cfg.ownerHeaders = true → ∀ ptr ≠ 0,
    session.state.deallocateChecked cfg ptr ≠ none ↔ ptr ∈ session.live ∨ ptr ∈ parked
  drain : ∀ pushes : List Nat, (∀ n ∈ pushes, n ∈ session.live ∨ n ∈ parked) →
    ((pushes.foldl State.remotePush session.state).drainChecked cfg ≠ none ↔
      (pushes.reverse ++ parked).Nodup)
  destroy : session.state.destroyChecked cfg ≠ none ↔ session.live = []

theorem deallocateChecked_iff (nonnull : ptr ≠ 0) :
    s.deallocateChecked cfg ptr ≠ none ↔ s.accepts cfg ptr = true := by
  unfold State.deallocateChecked
  rw [if_neg nonnull]
  cases s.accepts cfg ptr <;> simp

namespace SessionOk

variable {slots : Nat} {deferred : Bool}
  (inv : SessionOk cfg slots deferred session free parked)

include inv

theorem accepts_iff (node : n ∈ session.state.nodes cfg) :
    session.state.accepts cfg n = true ↔ n ∈ session.live ∨ n ∈ parked := by
  rw [inv.balanced.toOk.accepts_node node]
  have queued := inv.balanced.queued
  constructor
  · intro taken
    rcases inv.balanced.mem_nodes_iff.mp node with isFree | isParked | isBatch | holds
    · exact absurd isFree taken
    · exact .inr isParked
    · cases isBatch
    · exact .inl holds
  · rintro (holds | isParked)
    · exact (inv.balanced.out_apart holds).1
    · exact (queued.nodes n isParked).2

theorem drainChecked : session.state.drainChecked cfg = some session.state.drainRemote :=
  inv.balanced.queued.drainChecked.1 inv.balanced.parked_nodup

theorem allocateChecked :
    session.state.allocateChecked cfg heap = some (session.state.allocate cfg heap) := by
  unfold State.allocateChecked State.allocate
  by_cases empty : session.state.freeHead = 0
  · have popped : session.state.popFreeNode = (session.state, 0) := if_pos empty
    rw [popped]
    dsimp only
    by_cases headers : cfg.ownerHeaders = true
    · rw [if_pos ⟨rfl, headers⟩, if_pos ⟨rfl, headers⟩, inv.drainChecked]
      generalize session.state.drainRemote = outcome
      obtain ⟨t, some | none⟩ := outcome
      · exact resumeAllocateChecked_eq
      · exact resumeAllocateChecked_eq
    · rw [if_neg fun both => headers both.2, if_neg fun both => headers both.2]
      exact resumeAllocateChecked_eq
  · have popped : session.state.popFreeNode = (_, session.state.freeHead) := if_neg empty
    rw [popped]
    dsimp only
    rw [if_neg fun both => empty both.1, if_neg fun both => empty both.1]
    exact resumeAllocateChecked_eq

theorem destroyChecked : session.state.destroyChecked cfg ≠ none ↔ session.live = [] := by
  have counted : ∀ t : State, t.size = session.live.length →
      ((if t.size = 0 then some t else none) ≠ none ↔ session.live = []) := by
    intro t size
    have same : t.size = 0 ↔ session.live = [] := by
      rw [size, List.length_eq_zero_iff]
    rw [← same]
    by_cases none : t.size = 0 <;> simp [none]
  unfold State.destroyChecked
  by_cases headers : cfg.ownerHeaders = true
  · rw [if_pos headers, inv.drainChecked]
    obtain ⟨_, drained, _⟩ := inv.balanced.drainRemote
    generalize session.state.drainRemote = outcome at drained ⊢
    obtain ⟨t, found⟩ := outcome
    exact counted t (by simpa using drained.size_eq)
  · rw [if_neg headers]
    have size := inv.balanced.size_eq
    rw [inv.raw (by simpa using headers)] at size
    exact counted _ (by simpa using size)

theorem vigilant : Vigilant cfg session parked where
  deallocate n holds := by
    have node := inv.balanced.mem_nodes_iff.mpr (.inr (.inr (.inr holds)))
    have nonnull := inv.balanced.nonnull node
    unfold State.deallocateChecked
    rw [if_neg nonnull, if_pos ((inv.accepts_iff node).mpr (.inl holds))]
  allocate heap := inv.allocateChecked
  nodes n node := by
    rw [deallocateChecked_iff (inv.balanced.nonnull node), inv.accepts_iff node]
  pointers headers ptr nonnull := by
    rw [deallocateChecked_iff nonnull]
    constructor
    · intro accepted
      have owned := (inv.balanced.toOk.accepts_iff.mp accepted).1
      exact (inv.accepts_iff (inv.balanced.toOk.node_of_owns headers owned)).mp accepted
    · intro outside
      refine (inv.accepts_iff ?_).mpr outside
      exact inv.balanced.mem_nodes_iff.mpr (by tauto)
  drain pushes outside := by
    have queued := inv.balanced.queued
    have taken : ∀ n ∈ pushes, n ∈ session.state.nodes cfg ∧ n ∉ free := by
      intro n listed
      have node : n ∈ session.state.nodes cfg :=
        inv.balanced.mem_nodes_iff.mpr (by have := outside n listed; tauto)
      have accepted := (inv.accepts_iff node).mpr (outside n listed)
      exact ⟨node, (inv.balanced.toOk.accepts_node node).mp accepted⟩
    obtain ⟨passes, fails⟩ := (queued.pushAll taken).drainChecked
    constructor
    · intro passed
      by_contra repeated
      exact passed (fails repeated)
    · intro nodup
      rw [passes nodup]
      simp
  destroy := inv.destroyChecked

end SessionOk

/-- The assertions of a pool never fail while its users keep to the rules; they catch every
second free of a free node, every second remote free at the drain, whatever else was pushed
in between, and every node in use at the end. -/
theorem checks_exact {slots : Nat} {deferred : Bool}
    (reachable : (sessions cfg slots deferred).Reachable session) :
    ∃ parked, IsStack session.state.mem session.state.remoteHead parked ∧
      Vigilant cfg session parked := by
  obtain ⟨free, parked, inv⟩ := sessions_inductive.reachable reachable
  exact ⟨parked, inv.balanced.remote, inv.vigilant⟩

/-- A second remote free of a node in use, or one of the parked node, fails the assertion
of the drain. -/
theorem headerSession_checked :
    headerSession.state.remoteHead = 65632 ∧
      ([131552, 131552].foldl State.remotePush headerSession.state).drainChecked headerPool =
        none ∧
      ([131552, 65632].foldl State.remotePush headerSession.state).drainChecked headerPool =
        none ∧
      headerSession.state.allocateChecked headerPool exhausted =
        some (headerSession.state.allocate headerPool exhausted) := by
  obtain ⟨live, _, head, _⟩ := headerSession_state
  obtain ⟨parked, remote, vigilant⟩ := checks_exact headerSession_reachable
  rw [head] at remote
  have isParked : 65632 ∈ parked := by
    cases parked with
    | nil => cases remote
    | cons first later =>
        obtain ⟨rfl, _⟩ := remote
        simp
  refine ⟨head, ?_, ?_, vigilant.allocate exhausted⟩
  · by_contra passed
    have nodup := (vigilant.drain [131552, 131552] (by simp [live])).mp passed
    simp at nodup
  · by_contra passed
    have nodup := (vigilant.drain [131552, 65632] (by simp [live, isParked])).mp passed
    simp [isParked] at nodup

end Pool

end Allocazam
